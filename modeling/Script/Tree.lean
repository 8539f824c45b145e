import Script.Token

/-!
# Syntax trees

A program is a sequence of statements; statements hold expressions and, through
blocks, expressions hold statements.  Every node keeps the token it was built
from beside what it means, so that a tree can be reported and printed in the
words of its source.

## Main definitions

* `Identifier` — a name, used or bound.
* `Expr`, `Stmt` — the nine kinds of expression and the three kinds of statement.
* `Program` — the statements of a source, in order.
* `Expr.token`, `Stmt.token` — the token that a node was built from.
-/

namespace Script

/-- A name, used in an expression or bound by a `let` or a parameter list. -/
structure Identifier where
  /-- The token of the name. -/
  token : Token
  /-- The name. -/
  value : String
  deriving DecidableEq, Repr

mutual

/-- An expression. -/
inductive Expr where
  /-- A name that is used. -/
  | identifier (name : Identifier)
  /-- A whole number. -/
  | integer (token : Token) (value : Int64)
  /-- A truth value. -/
  | boolean (token : Token) (value : Bool)
  /-- An operator in front of its operand. -/
  | prefixOp (token : Token) (operator : String) (right : Expr)
  /-- An operator between its operands; its token is the operator. -/
  | infixOp (token : Token) (left : Expr) (operator : String) (right : Expr)
  /-- A choice, with or without an alternative. -/
  | conditional (token : Token) (condition consequence : Expr) (alternative : Option Expr)
  /-- Statements between braces; its token is the opening brace. -/
  | block (token : Token) (statements : List Stmt)
  /-- A function; its body is any expression, most often a block. -/
  | function (token : Token) (parameters : List Identifier) (body : Expr)
  /-- A call; its token is the opening parenthesis. -/
  | call (token : Token) (function : Expr) (arguments : List Expr)

/-- A statement. -/
inductive Stmt where
  /-- A binding of a name. -/
  | letBinding (token : Token) (name : Identifier) (value : Expr)
  /-- The value that is handed back. -/
  | returnValue (token : Token) (value : Expr)
  /-- An expression that stands alone; its token is the expression's first token. -/
  | expression (token : Token) (expression : Expr)

end

/-- The statements of a source, in order. -/
structure Program where
  /-- The statements. -/
  statements : List Stmt

namespace Identifier

/-- The name that a token spells. -/
def ofToken (token : Token) : Identifier := ⟨token, token.literal⟩

@[simp] theorem token_ofToken (token : Token) : (ofToken token).token = token := rfl

@[simp] theorem value_ofToken (token : Token) : (ofToken token).value = token.literal := rfl

end Identifier

/-! ### The token of a node -/

/-- The token that an expression was built from. -/
def Expr.token : Expr → Token
  | .identifier name => name.token
  | .integer token _ => token
  | .boolean token _ => token
  | .prefixOp token _ _ => token
  | .infixOp token _ _ _ => token
  | .conditional token _ _ _ => token
  | .block token _ => token
  | .function token _ _ => token
  | .call token _ _ => token

/-- The token that a statement was built from. -/
def Stmt.token : Stmt → Token
  | .letBinding token _ _ => token
  | .returnValue token _ => token
  | .expression token _ => token

/-- The literal of an expression's token. -/
def Expr.tokenLiteral (e : Expr) : String := e.token.literal

/-- The literal of a statement's token. -/
def Stmt.tokenLiteral (s : Stmt) : String := s.token.literal

namespace Program

/-- The number of statements. -/
def length (program : Program) : Nat := program.statements.length

/-- Whether there is no statement. -/
def isEmpty (program : Program) : Bool := program.statements.isEmpty

/-- The literal of the first statement's token; an empty program has none. -/
def tokenLiteral (program : Program) : String :=
  (program.statements.head?.map Stmt.tokenLiteral).getD ""

end Program

end Script
