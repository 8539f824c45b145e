import Script.Token

/-!
# Reading a source as tokens

The reader works on the characters of the source.  It skips blanks, then takes
one token: the longest run of letters, the longest run of digits, a comparison
or assignment sign with the `=` that may follow it, a single sign, or else one
character that belongs to no token.  Past the end there is only `Token.eof`.

## Main definitions

* `Lexer.scan` — the token that starts with a given character, and what follows it.
* `Lexer.tokens` — the tokens of a list of characters, without the end.
* `Lexer` — a source and the characters of it that are still unread, with
  `Lexer.next`, `Lexer.next?`, `Lexer.remaining` and `Lexer.drain`.
* `tokenize` — the tokens of a source, followed by one `Token.eof`.
-/

namespace Script

/-- A source that is being read. -/
structure Lexer where
  /-- The whole source. -/
  source : String
  /-- The characters of the source that no token has been read from yet. -/
  rest : List Char
  deriving DecidableEq, Repr

namespace Lexer

/-! ### Character classes -/

/-- Blanks separate tokens and belong to none. -/
def isBlank (c : Char) : Bool :=
  c = ' ' || c = '\t' || c = '\r' || c = '\n'

/-- A letter of a word: an unaccented Latin letter or the underscore. -/
def isLetter (c : Char) : Bool :=
  c.isAlpha || c = '_'

/-- The kind of a sign of one character. -/
def sign? : Char → Option Kind
  | '=' => some .assign
  | '!' => some .bang
  | '<' => some .lessThan
  | '>' => some .greaterThan
  | '+' => some .plus
  | '-' => some .minus
  | '*' => some .asterisk
  | '/' => some .slash
  | ',' => some .comma
  | ';' => some .semicolon
  | '(' => some .lparen
  | ')' => some .rparen
  | '{' => some .lbrace
  | '}' => some .rbrace
  | _ => none

/-- The kind of the sign made of a character and a following `=`. -/
def signWithEqual? : Char → Option Kind
  | '=' => some .equal
  | '!' => some .notEqual
  | '<' => some .lessThanOrEqual
  | '>' => some .greaterThanOrEqual
  | _ => none

/-! ### Scanning -/

/-- The sign, or the illegal character, that starts with `c`, and the characters
after it. -/
def scanSign (c : Char) (rest : List Char) : Token × List Char :=
  match signWithEqual? c, rest with
  | some kind, '=' :: rest => (⟨kind, String.ofList [c, '=']⟩, rest)
  | _, rest => (⟨(sign? c).getD .illegal, String.singleton c⟩, rest)

/-- The token that starts with `c`, and the characters after it. -/
def scan (c : Char) (rest : List Char) : Token × List Char :=
  if isLetter c then
    let word := String.ofList (c :: rest.takeWhile isLetter)
    (⟨Kind.ofWord word, word⟩, rest.dropWhile isLetter)
  else if c.isDigit then
    (⟨.int, String.ofList (c :: rest.takeWhile Char.isDigit)⟩, rest.dropWhile Char.isDigit)
  else
    scanSign c rest

theorem length_dropWhile_le (p : Char → Bool) (cs : List Char) :
    (cs.dropWhile p).length ≤ cs.length :=
  (List.dropWhile_sublist p).length_le

theorem length_scanSign_le (c : Char) (rest : List Char) :
    (scanSign c rest).2.length ≤ rest.length := by
  unfold scanSign
  split <;> simp

/-- A token takes at least the character it starts with. -/
theorem length_scan_le (c : Char) (rest : List Char) :
    (scan c rest).2.length ≤ rest.length := by
  unfold scan
  split
  · exact length_dropWhile_le _ _
  · split
    · exact length_dropWhile_le _ _
    · exact length_scanSign_le c rest

/-- The tokens of a list of characters, without the end of the source. -/
def tokens (cs : List Char) : List Token :=
  match _h : cs.dropWhile isBlank with
  | [] => []
  | c :: rest => (scan c rest).1 :: tokens (scan c rest).2
termination_by cs.length
decreasing_by
  have hscan := length_scan_le c rest
  have hdrop := length_dropWhile_le isBlank cs
  rw [_h, List.length_cons] at hdrop
  omega

theorem tokens_eq_nil {cs : List Char} (h : cs.dropWhile isBlank = []) : tokens cs = [] := by
  rw [tokens]
  split <;> simp_all

theorem tokens_eq_cons {cs : List Char} {c : Char} {rest : List Char}
    (h : cs.dropWhile isBlank = c :: rest) :
    tokens cs = (scan c rest).1 :: tokens (scan c rest).2 := by
  rw [tokens]
  split <;> simp_all

/-! ### Reading one token at a time -/

/-- The reader at the start of a source. -/
def ofString (source : String) : Lexer := ⟨source, source.toList⟩

/-- The number of bytes of the source that have been read. -/
def position (lexer : Lexer) : Nat :=
  lexer.source.utf8ByteSize - (String.ofList lexer.rest).utf8ByteSize

/-- Reads one token.  At the end of the source this is `Token.eof`, however often
it is asked for. -/
def next (lexer : Lexer) : Token × Lexer :=
  match lexer.rest.dropWhile isBlank with
  | [] => (Token.eof, { lexer with rest := [] })
  | c :: rest => ((scan c rest).1, { lexer with rest := (scan c rest).2 })

/-- Reads one token, or nothing at the end of the source. -/
def next? (lexer : Lexer) : Option Token × Lexer :=
  let (token, lexer) := lexer.next
  (if token.is .eof then none else some token, lexer)

/-- Reads the given number of tokens and drops them. -/
def skip : Nat → Lexer → Lexer
  | 0, lexer => lexer
  | count + 1, lexer => skip count lexer.next.2

/-- The tokens that are still to come, without the end of the source. -/
def remaining (lexer : Lexer) : List Token := tokens lexer.rest

/-- Reads all tokens that are still to come. -/
def drain (lexer : Lexer) : List Token × Lexer :=
  (lexer.remaining, { lexer with rest := [] })

end Lexer

/-- The tokens of a source, followed by one `Token.eof`. -/
def tokenize (source : String) : List Token :=
  (Lexer.ofString source).remaining ++ [Token.eof]

end Script
