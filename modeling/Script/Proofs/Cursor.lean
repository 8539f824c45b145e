import Script.Lexer
import Script.Text.Bytes

/-!
# A reader that moves byte by byte

A reader need not have the characters of its source at hand.  It can keep an offset in the bytes
of the source, the byte there and the offset of the byte that it reads next, and move on by one
byte at a time.  The byte that it stands on tells what token starts there, and the literal of the
token is cut out of the source, from where the reader has stood to where it stands then.  Such a
cut fails where a character would be cut into two, and a reader that fails has no answer.

## Main definitions

* `Cursor` — the state of such a reader, with `Cursor.ofString` and `Cursor.readByte`.
* `Cursor.readRun`, `Cursor.readSign`, `Cursor.readIllegal` — words and numbers, signs, and
  characters that belong to nothing.
* `Cursor.next`, `Cursor.next?` — reading one token, or nothing at the end.
* `Cursor.Sound` — the four fields fit together, as they do in `Cursor.ofPosition` between two
  characters.
* `Call`, `Cursor.performAll`, `Lexer.performAll` — what can be asked of a reader.
* `Cursor.tokenAt`, `Cursor.Drains` — the tokens that are still to come, one at a time and all
  at once.
-/

namespace Script

open Text

/-- The state of a reader that moves byte by byte. -/
structure Cursor where
  /-- The whole source. -/
  source : String
  /-- The offset at which the reader stands. -/
  position : Nat
  /-- The offset of the byte that it reads next. -/
  readPosition : Nat
  /-- The byte at which it stands; at the end of the source this is 0. -/
  byte : UInt8
  deriving DecidableEq, Repr

namespace Cursor

/-! ### Single moves -/

/-- Moves on to the next byte.  What is read next is never more than one byte behind the end. -/
def readByte (c : Cursor) : Cursor where
  source := c.source
  position := c.readPosition
  readPosition := min (c.readPosition + 1) (c.source.utf8ByteSize + 1)
  byte := byteAt c.source c.readPosition

/-- The reader at the start of a source. -/
def ofString (source : String) : Cursor := readByte ⟨source, 0, 0, 0⟩

/-- The byte at which the reader stands, looked at as the character with its number. -/
def char (c : Cursor) : Char := Char.ofUInt8 c.byte

/-- The byte that is read next, looked at in the same way. -/
def peekChar (c : Cursor) : Char := Char.ofUInt8 (byteAt c.source c.readPosition)

/-- Whether there is nothing left of the source.  The byte does not tell, since 0 can also stand
in the source. -/
def atEnd (c : Cursor) : Bool := c.source.utf8ByteSize ≤ c.position

/-- A bound for the moves that are left: each makes the next offset greater, up to the end, and
one more is needed to stand there. -/
def movesLeft (c : Cursor) : Nat :=
  c.source.utf8ByteSize + 1 - c.readPosition + min 1 (c.source.utf8ByteSize - c.position)

theorem movesLeft_readByte_lt {c : Cursor} (h : c.atEnd = false) :
    c.readByte.movesLeft < c.movesLeft := by
  have hlt : c.position < c.source.utf8ByteSize := Nat.not_le.1 (of_decide_eq_false h)
  dsimp only [movesLeft, readByte]
  omega

/-- Moves on for as long as the byte is of a class of characters. -/
def skipWhile (p : Char → Bool) (c : Cursor) : Cursor :=
  if _h : c.atEnd = false ∧ p c.char = true then skipWhile p c.readByte else c
termination_by c.movesLeft
decreasing_by exact movesLeft_readByte_lt _h.1

/-! ### Tokens -/

/-- Reads a run of bytes of a class of characters. -/
def readRun (p : Char → Bool) (c : Cursor) : Option (String × Cursor) := do
  let run ← slice? c.source c.position (c.skipWhile p).position
  pure (run, c.skipWhile p)

/-- Reads a sign up to its last byte, on which the reader stays: it is the longer one if `=`
follows. -/
def orEqual (single withEqual : Kind) (c : Cursor) : Option (Token × Cursor) :=
  if c.peekChar = '=' then do
    let literal ← slice? c.source c.position c.readByte.readPosition
    pure (⟨withEqual, literal⟩, c.readByte)
  else do
    let literal ← slice? c.source c.position c.readPosition
    pure (⟨single, literal⟩, c)

/-- Reads a sign, given the kind that it has when it stands alone. -/
def readSign (kind : Kind) (c : Cursor) : Option (Token × Cursor) := do
  let (token, c) ← match Lexer.signWithEqual? c.char with
    | some withEqual => c.orEqual kind withEqual
    | none => some (⟨kind, String.singleton c.char⟩, c)
  pure (token, c.readByte)

/-- Reads one whole character, of however many bytes. -/
def readIllegal (c : Cursor) : Option (Token × Cursor) := do
  let behind ← slice? c.source c.position c.source.utf8ByteSize
  let width := (behind.toList.head?.map Char.utf8Size).getD 1
  let literal ← slice? c.source c.position (c.position + width)
  pure (⟨.illegal, literal⟩, Nat.repeat readByte width c)

/-- Reads the token that starts where the reader stands. -/
def scan (c : Cursor) : Option (Token × Cursor) :=
  if c.atEnd then
    some (Token.eof, c)
  else
    match Lexer.sign? c.char with
    | some kind => c.readSign kind
    | none =>
      if Lexer.isLetter c.char then do
        let (word, c) ← c.readRun Lexer.isLetter
        pure (⟨Kind.ofWord word, word⟩, c)
      else if c.char.isDigit then do
        let (digits, c) ← c.readRun Char.isDigit
        pure (⟨.int, digits⟩, c)
      else
        c.readIllegal

/-- Reads one token.  At the end of the source this is `Token.eof`. -/
def next (c : Cursor) : Option (Token × Cursor) := (c.skipWhile Lexer.isBlank).scan

/-- Reads one token, or nothing at the end of the source. -/
def next? (c : Cursor) : Option (Option Token × Cursor) := do
  let (token, c) ← c.next
  pure (if token.is .eof then none else some token, c)

/-! ### States -/

/-- The fields of a reader fit together. -/
structure Sound (c : Cursor) : Prop where
  /-- The reader stands in the source, or at its end, -/
  le : c.position ≤ c.source.utf8ByteSize
  /-- and not within a character. -/
  boundary : IsBoundary c.source c.position
  /-- What it reads next is the byte behind the one on which it stands, -/
  readPosition : c.readPosition = c.position + 1
  /-- and it knows that one. -/
  byte : c.byte = byteAt c.source c.position

/-- The reader at an offset of a source. -/
def ofPosition (source : String) (position : Nat) : Cursor :=
  ⟨source, position, position + 1, byteAt source position⟩

/-! ### What is still to come -/

/-- Reads the given number of tokens and drops them. -/
def skip : Nat → Cursor → Option Cursor
  | 0, c => some c
  | count + 1, c => do
    let (_, c) ← c.next
    skip count c

/-- The token that is read after the given number of others. -/
def tokenAt (c : Cursor) (index : Nat) : Option Token := do
  let c ← c.skip index
  let (token, _) ← c.next
  pure token

/-- A reader that is asked for tokens until there are none gives these and then stands here. -/
inductive Drains : Cursor → List Token → Cursor → Prop where
  /-- There are none. -/
  | done {c c' : Cursor} (hnext : c.next? = some (none, c')) : Drains c [] c'
  /-- There is one, and then the others. -/
  | more {c c' c'' : Cursor} {t : Token} {ts : List Token} (hnext : c.next? = some (some t, c'))
      (hrest : Drains c' ts c'') : Drains c (t :: ts) c''

end Cursor

/-! ### What can be asked of a reader -/

/-- A question to a reader. -/
inductive Call where
  /-- What is the next token? -/
  | next
  /-- What is the next token, if there is one? -/
  | next?
  deriving DecidableEq, Repr

/-- The answer at the end of the source. -/
def Call.atEnd : Call → Option Token
  | .next => some Token.eof
  | .next? => none

/-- Answers a question. -/
def Cursor.perform (c : Cursor) : Call → Option (Option Token × Cursor)
  | .next => c.next.map fun (token, c) => (some token, c)
  | .next? => c.next?

/-- Answers questions one after the other. -/
def Cursor.performAll (c : Cursor) : List Call → Option (List (Option Token) × Cursor)
  | [] => some ([], c)
  | call :: calls => do
    let (answer, c) ← c.perform call
    let (answers, c) ← c.performAll calls
    pure (answer :: answers, c)

/-- Answers a question. -/
def Lexer.perform (l : Lexer) : Call → Option Token × Lexer
  | .next => (some l.next.1, l.next.2)
  | .next? => l.next?

/-- Answers questions one after the other. -/
def Lexer.performAll (l : Lexer) : List Call → List (Option Token) × Lexer
  | [] => ([], l)
  | call :: calls =>
    let later := (l.perform call).2.performAll calls
    ((l.perform call).1 :: later.1, later.2)

end Script
