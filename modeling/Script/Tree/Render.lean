import Script.Tree

/-!
# The text of a tree

A tree is written with every operator in parentheses, so that the text shows how
the source was understood.  Names and operators are written by their value, the
literals and the leading words by the token, and blocks without their braces.

## Main definitions

* `Expr.render`, `Stmt.render`, `Program.render` — the text of a node.
* `Expr.renderList`, `Expr.renderAlternative`, `Stmt.renderList` — the text of a
  node's children.
-/

namespace Script

/-- The names of a parameter list, separated by commas. -/
def Identifier.renderList (names : List Identifier) : String :=
  ", ".intercalate (names.map Identifier.value)

mutual

/-- The text of an expression. -/
def Expr.render : Expr → String
  | .identifier name => name.value
  | .integer token _ => token.literal
  | .boolean token _ => token.literal
  | .prefixOp _ operator right => "(" ++ operator ++ right.render ++ ")"
  | .infixOp _ left operator right =>
    "(" ++ left.render ++ " " ++ operator ++ " " ++ right.render ++ ")"
  | .conditional _ condition consequence alternative =>
    "if" ++ condition.render ++ " " ++ consequence.render ++ Expr.renderAlternative alternative
  | .block _ statements => Stmt.renderList statements
  | .function token parameters body =>
    token.literal ++ "(" ++ Identifier.renderList parameters ++ ") " ++ body.render
  | .call _ function arguments =>
    function.render ++ "(" ++ ", ".intercalate (Expr.renderList arguments) ++ ")"

/-- The text of the alternative of a choice, with the word in front of it. -/
def Expr.renderAlternative : Option Expr → String
  | none => ""
  | some e => "else " ++ e.render

/-- The texts of a list of expressions, one by one. -/
def Expr.renderList : List Expr → List String
  | [] => []
  | e :: es => e.render :: Expr.renderList es

/-- The text of a statement. -/
def Stmt.render : Stmt → String
  | .letBinding token name value =>
    token.literal ++ " " ++ name.value ++ " = " ++ value.render ++ ";"
  | .returnValue token value => token.literal ++ " " ++ value.render ++ ";"
  | .expression _ expression => expression.render

/-- The texts of a list of statements, one after the other. -/
def Stmt.renderList : List Stmt → String
  | [] => ""
  | s :: ss => s.render ++ Stmt.renderList ss

end

/-- The text of a program: that of its statements. -/
def Program.render (program : Program) : String :=
  Stmt.renderList program.statements

end Script
