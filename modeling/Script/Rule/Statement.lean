import Script.Grammar
import Script.Step
import Script.Tree

/-!
# Rules for statements

Each rule is entered with the first token of the statement as the current token,
and is left with the last one: the `;` that ends the statement, if there is one,
belongs to it.  The rules take the reading of expressions as a parameter.

## Main definitions

* `Rule.letBinding`, `Rule.returnValue`, `Rule.expressionStmt` — the three kinds
  of statement.
* `StatementRule.read` — the rule that an entry of a grammar names.
-/

namespace Script

/-- A way to read expressions whose operators all bind tighter than a given power. -/
abbrev ExprReader := BindingPower → Step Expr

variable {M : Type → Type} [Reading M]

namespace Rule

/-- Reads `let <name> = <value>;`. -/
def letBinding (expr : BindingPower → M Expr) : M Stmt := do
  let token ← Reading.current
  let name ← Reading.expect .ident
  let _ ← Reading.expect .assign
  let _ ← Reading.advance
  let value ← expr .lowest
  Reading.skipSemicolon
  pure (.letBinding token (.ofToken name) value)

/-- Reads `return <value>;`. -/
def returnValue (expr : BindingPower → M Expr) : M Stmt := do
  let token ← Reading.advance
  let value ← expr .lowest
  Reading.skipSemicolon
  pure (.returnValue token value)

/-- Reads an expression that stands alone. -/
def expressionStmt (expr : BindingPower → M Expr) : M Stmt := do
  let token ← Reading.current
  let expression ← expr .lowest
  Reading.skipSemicolon
  pure (.expression token expression)

end Rule

/-- The rule that an entry names.  An entry that sends the reader back to the
table is found there again and again. -/
def StatementRule.read (expr : BindingPower → M Expr) : StatementRule → M Stmt
  | .lookup => Reading.forever
  | .letBinding => Rule.letBinding expr
  | .returnValue => Rule.returnValue expr
  | .expression => Rule.expressionStmt expr

end Script
