import Script.Diagnostic
import Script.Tokens

/-!
# Reading steps

A reading step looks at the unread tokens and takes some of them.  It hands back
a value or a diagnostic, what is left of the tokens, and the diagnostics that
were recorded on the way, in the order in which they were raised.  A step can
also run for ever: some grammars make one do so.

Rules are made of single moves, such as taking a token.  They do not depend on how the moves are
made, so that whoever can make these moves can read by the rules; steps are one way to make them.

## Main definitions

* `Reading` — the single moves.
* `Reply` — what a step comes to.
* `Step` — a step that reads a value, with its sequencing as a monad.
* `Step.current`, `Step.peek`, `Step.advance`, `Step.expect` — looking at tokens
  and taking them.
* `Step.reject`, `Step.fail`, `Step.record`, `Step.attempt` — diagnostics.
* `Step.bounded` — a loop that takes a token in each of its rounds.
-/

namespace Script

/-- The single moves that rules are made of, for whoever makes them. -/
class Reading (M : Type → Type) extends Monad M where
  /-- Looks at the current token. -/
  current : M Token
  /-- Looks at the token after the current one. -/
  peek : M Token
  /-- Takes the current token. -/
  advance : M Token
  /-- Moves on to the next token if it has the given kind, and ends otherwise. -/
  expect (kind : Kind) : M Token
  /-- Moves on to the next token if it is a `;`. -/
  skipSemicolon : M Unit
  /-- Skips the rest of a statement that could not be read. -/
  synchronize (inBlock : Bool) : M Unit
  /-- Ends with a diagnostic. -/
  fail {α : Type} (diagnostic : Diagnostic) : M α
  /-- Ends with a fault at the current token. -/
  reject {α : Type} (cause : Fault) : M α
  /-- Records a diagnostic and goes on. -/
  record (diagnostic : Diagnostic) : M Unit
  /-- Reads something and hands back the diagnostic that this ends with, if any. -/
  attempt {α : Type} (read : M α) : M (Except Diagnostic α)
  /-- Runs for ever. -/
  forever {α : Type} : M α
  /-- Runs a loop, given by the number of rounds that it may still take. -/
  bounded {α : Type} (loop : Nat → M α) : M α

/-- What a reading step comes to. -/
inductive Reply (α : Type) where
  /-- The step read a value. -/
  | ok (value : α) (rest : Tokens) (log : List Diagnostic)
  /-- The step ended with a diagnostic, which is not part of the log. -/
  | fail (diagnostic : Diagnostic) (rest : Tokens) (log : List Diagnostic)
  /-- The step runs for ever. -/
  | diverges
  deriving DecidableEq, Repr

/-- A step that reads a value off the front of the unread tokens. -/
def Step (α : Type) := Tokens → Reply α

namespace Reply

variable {α : Type}

/-- The reply with diagnostics that were recorded before it. -/
def after (log : List Diagnostic) : Reply α → Reply α
  | ok value rest log' => ok value rest (log ++ log')
  | fail diagnostic rest log' => fail diagnostic rest (log ++ log')
  | diverges => diverges

@[simp] theorem after_ok (log : List Diagnostic) (value : α) (rest : Tokens)
    (log' : List Diagnostic) : (ok value rest log').after log = ok value rest (log ++ log') := rfl

@[simp] theorem after_fail (log : List Diagnostic) (diagnostic : Diagnostic) (rest : Tokens)
    (log' : List Diagnostic) :
    (fail diagnostic rest log' : Reply α).after log = fail diagnostic rest (log ++ log') := rfl

@[simp] theorem after_diverges (log : List Diagnostic) :
    (diverges : Reply α).after log = diverges := rfl

@[simp] theorem after_nil (reply : Reply α) : reply.after [] = reply := by
  cases reply <;> rfl

@[simp] theorem after_after (log log' : List Diagnostic) (reply : Reply α) :
    (reply.after log').after log = reply.after (log ++ log') := by
  cases reply <;> simp

end Reply

namespace Step

variable {α β : Type}

/-! ### Sequencing -/

/-- The step that reads nothing. -/
def done (value : α) : Step α := fun ts => .ok value ts []

/-- One step after another: the second depends on what the first has read, and
is left out when the first ends with a diagnostic. -/
def andThen (first : Step α) (second : α → Step β) : Step β := fun ts =>
  match first ts with
  | .ok value rest log => (second value rest).after log
  | .fail diagnostic rest log => .fail diagnostic rest log
  | .diverges => .diverges

instance : Monad Step where
  pure := done
  bind := andThen

theorem pure_apply (value : α) (ts : Tokens) : (pure value : Step α) ts = .ok value ts [] := rfl

theorem bind_apply (first : Step α) (second : α → Step β) (ts : Tokens) :
    (first >>= second) ts =
      match first ts with
      | .ok value rest log => (second value rest).after log
      | .fail diagnostic rest log => .fail diagnostic rest log
      | .diverges => .diverges := rfl

theorem bind_of_ok {first : Step α} {ts : Tokens} {value : α} {rest : Tokens}
    {log : List Diagnostic} (h : first ts = .ok value rest log) (second : α → Step β) :
    (first >>= second) ts = (second value rest).after log := by
  rw [bind_apply, h]

theorem bind_of_fail {first : Step α} {ts : Tokens} {diagnostic : Diagnostic} {rest : Tokens}
    {log : List Diagnostic} (h : first ts = .fail diagnostic rest log) (second : α → Step β) :
    (first >>= second) ts = .fail diagnostic rest log := by
  rw [bind_apply, h]

theorem bind_of_diverges {first : Step α} {ts : Tokens} (h : first ts = .diverges)
    (second : α → Step β) : (first >>= second) ts = .diverges := by
  rw [bind_apply, h]

/-- If one step after another reads something, both of them do. -/
theorem exists_of_bind_eq_ok {first : Step α} {second : α → Step β} {ts out : Tokens} {w : β}
    {log : List Diagnostic} (h : (first >>= second) ts = .ok w out log) :
    ∃ v mid log₁ log₂, first ts = .ok v mid log₁ ∧ second v mid = .ok w out log₂ ∧
      log = log₁ ++ log₂ := by
  cases hfirst : first ts with
  | ok v mid log₁ =>
    rw [bind_of_ok hfirst] at h
    cases hsecond : second v mid with
    | ok w' out' log₂ =>
      rw [hsecond] at h
      cases h
      exact ⟨v, mid, log₁, log₂, rfl, hsecond, rfl⟩
    | fail diagnostic out' log₂ =>
      rw [hsecond] at h
      cases h
    | diverges =>
      rw [hsecond] at h
      cases h
  | fail diagnostic mid log₁ =>
    rw [bind_of_fail hfirst] at h
    cases h
  | diverges =>
    rw [bind_of_diverges hfirst] at h
    cases h

instance : LawfulMonad Step := LawfulMonad.mk' Step
  (by
    intro α p
    funext ts
    show andThen p done ts = p ts
    unfold andThen done
    cases p ts <;> simp)
  (by
    intro α β value second
    funext ts
    show andThen (done value) second ts = second value ts
    simp [andThen, done])
  (by
    intro α β γ p second third
    funext ts
    show andThen (andThen p second) third ts = andThen p (fun a => andThen (second a) third) ts
    unfold andThen
    cases p ts with
    | ok value rest log => cases h : second value rest <;> simp [h]
    | fail diagnostic rest log => rfl
    | diverges => rfl)

/-! ### Single moves -/

/-- A loop may take one round more than there are tokens.  If every round takes a token while
there is one, then a loop that is not over by then has come back to where it was, and never
ends. -/
instance : Reading Step where
  current ts := .ok ts.current ts []
  peek ts := .ok ts.peek ts []
  advance ts := .ok ts.current ts.tail []
  expect kind ts :=
    if ts.peek.kind = kind then .ok ts.peek ts.tail []
    else .fail ⟨.unexpectedToken kind ts.peek.kind, ts.peek⟩ ts []
  skipSemicolon ts := .ok () (if ts.peek.kind = .semicolon then ts.tail else ts) []
  synchronize inBlock ts := .ok () (ts.recover inBlock) []
  fail diagnostic ts := .fail diagnostic ts []
  reject cause ts := .fail ⟨cause, ts.current⟩ ts []
  record diagnostic ts := .ok () ts [diagnostic]
  attempt step ts :=
    match step ts with
    | .ok value rest log => .ok (.ok value) rest log
    | .fail diagnostic rest log => .ok (.error diagnostic) rest log
    | .diverges => .diverges
  forever _ := .diverges
  bounded loop ts := loop (ts.length + 1) ts

/-- Looks at the current token. -/
abbrev current : Step Token := Reading.current

/-- Looks at the token after the current one. -/
abbrev peek : Step Token := Reading.peek

/-- Takes the current token, if there is one left. -/
abbrev advance : Step Token := Reading.advance

/-- Moves on to the next token if it has the given kind. -/
abbrev expect (kind : Kind) : Step Token := Reading.expect kind

/-- Moves on to the next token if it is a `;`. -/
abbrev skipSemicolon : Step Unit := Reading.skipSemicolon

/-- Skips the rest of a statement that could not be read. -/
abbrev synchronize (inBlock : Bool) : Step Unit := Reading.synchronize inBlock

/-- Ends with a diagnostic. -/
abbrev fail (diagnostic : Diagnostic) : Step α := Reading.fail diagnostic

/-- Ends with a fault at the current token. -/
abbrev reject (cause : Fault) : Step α := Reading.reject cause

/-- Records a diagnostic and goes on. -/
abbrev record (diagnostic : Diagnostic) : Step Unit := Reading.record diagnostic

/-- Takes a step and hands back the diagnostic that it ends with, if any. -/
abbrev attempt (step : Step α) : Step (Except Diagnostic α) := Reading.attempt step

/-- Runs for ever. -/
abbrev forever : Step α := Reading.forever

/-- A loop, given by the number of rounds that it may still take. -/
abbrev bounded (loop : Nat → Step α) : Step α := Reading.bounded loop

@[simp] theorem current_apply (ts : Tokens) : current ts = .ok ts.current ts [] := rfl

@[simp] theorem peek_apply (ts : Tokens) : peek ts = .ok ts.peek ts [] := rfl

@[simp] theorem advance_apply (ts : Tokens) : advance ts = .ok ts.current ts.tail [] := rfl

theorem expect_apply (kind : Kind) (ts : Tokens) :
    expect kind ts =
      if ts.peek.kind = kind then .ok ts.peek ts.tail []
      else .fail ⟨.unexpectedToken kind ts.peek.kind, ts.peek⟩ ts [] := rfl

theorem skipSemicolon_apply (ts : Tokens) :
    skipSemicolon ts = .ok () (if ts.peek.kind = .semicolon then ts.tail else ts) [] := rfl

theorem attempt_apply (step : Step α) (ts : Tokens) :
    attempt step ts =
      match step ts with
      | .ok value rest log => .ok (.ok value) rest log
      | .fail diagnostic rest log => .ok (.error diagnostic) rest log
      | .diverges => .diverges := rfl

theorem forever_apply (ts : Tokens) : (forever : Step α) ts = .diverges := rfl

@[simp] theorem fail_apply (diagnostic : Diagnostic) (ts : Tokens) :
    (fail diagnostic : Step α) ts = .fail diagnostic ts [] := rfl

@[simp] theorem reject_apply (cause : Fault) (ts : Tokens) :
    (reject cause : Step α) ts = .fail ⟨cause, ts.current⟩ ts [] := rfl

theorem fail_bind (diagnostic : Diagnostic) (second : α → Step β) :
    (fail diagnostic >>= second) = fail diagnostic := rfl

theorem reject_bind (cause : Fault) (second : α → Step β) :
    (reject cause >>= second) = reject cause := rfl

@[simp] theorem record_apply (diagnostic : Diagnostic) (ts : Tokens) :
    record diagnostic ts = .ok () ts [diagnostic] := rfl

@[simp] theorem synchronize_apply (inBlock : Bool) (ts : Tokens) :
    synchronize inBlock ts = .ok () (ts.recover inBlock) [] := rfl

@[simp] theorem bounded_apply (loop : Nat → Step α) (ts : Tokens) :
    bounded loop ts = loop (ts.length + 1) ts := rfl

end Step

end Script
