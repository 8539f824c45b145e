import Script.Token

/-!
# Token sequences

What is left of a source is the list of its unread tokens.  The first of them is
the current token and the second is the one that lies ahead; past the last token
there is only `Token.eof`.

## Main definitions

* `Tokens` — the unread tokens.
* `Tokens.current`, `Tokens.peek` — the first two of them.
* `Tokens.recover` — what is left when the rest of a broken statement is skipped.
-/

namespace Script

/-- The unread tokens of a source, without its end. -/
abbrev Tokens := List Token

namespace Tokens

/-- The token that is being looked at. -/
def current (ts : Tokens) : Token := ts.headD Token.eof

/-- The token after the current one. -/
def peek (ts : Tokens) : Token := current ts.tail

@[simp] theorem current_nil : current [] = Token.eof := rfl

@[simp] theorem current_cons (t : Token) (ts : Tokens) : current (t :: ts) = t := rfl

@[simp] theorem peek_nil : peek [] = Token.eof := rfl

@[simp] theorem peek_cons (t : Token) (ts : Tokens) : peek (t :: ts) = current ts := rfl

/-- A kind of token with which a statement starts, and only a statement. -/
def startsStatement (kind : Kind) : Bool := kind = .kwLet || kind = .kwReturn

theorem startsStatement_iff {kind : Kind} :
    startsStatement kind = true ↔ kind = .kwLet ∨ kind = .kwReturn := by
  rw [startsStatement, Bool.or_eq_true, decide_eq_true_iff, decide_eq_true_iff]

/-- Skips the rest of a statement that could not be read.  The skip ends after a
`;`, before a later `let` or `return`, or at the end; in a block it also ends
before the closing brace, which is left for the block. -/
def recover (inBlock : Bool) : Tokens → Tokens
  | [] => []
  | t :: ts =>
    if inBlock && t.kind = .rbrace then t :: ts
    else if t.kind = .semicolon then ts
    else if startsStatement (current ts).kind then ts
    else recover inBlock ts

@[simp] theorem recover_nil (inBlock : Bool) : recover inBlock [] = [] := rfl

/-- Skipping drops tokens from the front. -/
theorem recover_suffix (inBlock : Bool) (ts : Tokens) : recover inBlock ts <:+ ts := by
  induction ts with
  | nil => exact List.suffix_refl _
  | cons t ts ih =>
    unfold recover
    split
    · exact List.suffix_refl _
    · split
      · exact List.suffix_cons t ts
      · split
        · exact List.suffix_cons t ts
        · exact ih.trans (List.suffix_cons t ts)

end Tokens

end Script
