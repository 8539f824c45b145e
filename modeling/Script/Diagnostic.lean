import Script.Text.Quoted
import Script.Token

/-!
# Diagnostics

What can be wrong with a source is a `Fault`; a diagnostic is a fault together
with the token it is reported at.

## Main definitions

* `Fault` — the causes, each with its name `Fault.name` and its text `Fault.message`.
* `Diagnostic` — a fault and its token, with `Diagnostic.tip?`, a hint for the
  writer of the source.
-/

namespace Script

/-- A cause for which a source is rejected. -/
inductive Fault where
  /-- The next token has another kind than the only one that may stand here. -/
  | unexpectedToken (expected found : Kind)
  /-- No expression starts with a token of this kind. -/
  | noPrefixRule (kind : Kind)
  /-- The literal is no integer, or none within the limits. -/
  | invalidInteger (literal : String)
  /-- More expressions stand inside each other than the limit allows. -/
  | nestingTooDeep (limit : Nat)
  deriving DecidableEq, Repr

namespace Fault

/-- The name of the cause. -/
def name : Fault → String
  | unexpectedToken .. => "UnexpectedToken"
  | noPrefixRule _ => "NoPrefixParseFn"
  | invalidInteger _ => "IntegerParseError"
  | nestingTooDeep _ => "NestingTooDeep"

/-- The text of the cause. -/
def message : Fault → String
  | unexpectedToken expected found =>
    "expected next token to be " ++ expected.name ++ ", got " ++ found.name ++ " instead"
  | noPrefixRule kind => "no prefix parse function for " ++ kind.name ++ " found"
  | invalidInteger literal => "could not parse " ++ Text.quote literal ++ " as integer"
  | nestingTooDeep limit =>
    "expression nesting is too deep (maximum " ++ toString limit ++ " levels)"

/-- Whether the cause is the depth of nesting. -/
def isNesting : Fault → Bool
  | nestingTooDeep _ => true
  | _ => false

end Fault

/-- A fault and the token that it is reported at. -/
structure Diagnostic where
  /-- What is wrong. -/
  fault : Fault
  /-- The token that was being looked at. -/
  token : Token
  deriving DecidableEq, Repr

namespace Diagnostic

/-- The text of a diagnostic is that of its fault. -/
def message (diagnostic : Diagnostic) : String := diagnostic.fault.message

/-- A hint on how the source can be mended, for faults that suggest one. -/
def tip? (diagnostic : Diagnostic) : Option String :=
  match diagnostic.fault with
  | .unexpectedToken .assign _ => some "a let binding needs `=` between the name and its value"
  | .unexpectedToken .rparen _ => some "is a closing `)` missing?"
  | .unexpectedToken .rbrace _ => some "is a closing `\x7d` missing?"
  | .unexpectedToken .. => none
  | .noPrefixRule .illegal =>
    some ("`" ++ diagnostic.token.literal ++ "` is not part of the language")
  | .noPrefixRule _ => some ("`" ++ diagnostic.token.literal ++ "` cannot start an expression")
  | .invalidInteger literal =>
    some ("Invalid integer: `" ++ literal ++ "`, is it above the integer limit?")
  | .nestingTooDeep _ => some "split the expression up with `let` bindings"

end Diagnostic

end Script
