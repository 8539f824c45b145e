import Script.Rule.Statement
import Script.Text.Decimal

/-!
# Rules for expressions

A rule that starts an expression is entered with the expression's first token as
the current token; a rule that continues one is entered with the operator or the
opening parenthesis.  Every rule is left with the last token of what it has read
as the current token.  The rules take the reading of expressions, and the rule
for blocks that of statements, as parameters.

## Main definitions

* `Rule.identifier`, `Rule.integer`, `Rule.boolean` — single tokens.
* `Rule.prefixOp`, `Rule.infixOp`, `Rule.grouping` — operators and parentheses.
* `Rule.block`, `Rule.conditional`, `Rule.function`, `Rule.call` — the others, with
  the loops `Rule.blockStatements`, `Rule.parameterNames` and `Rule.argumentValues`.
* `PrefixRule.read`, `InfixRule.read` — the rule that an entry of a grammar names.
-/

namespace Script

variable {M : Type → Type} [Reading M]

namespace Rule

/-! ### Single tokens -/

/-- Reads a name. -/
def identifier : M Expr := do
  let token ← Reading.current
  pure (.identifier (.ofToken token))

/-- Reads an integer. -/
def integer : M Expr := do
  let token ← Reading.current
  match Text.integer? token.literal with
  | some value => pure (.integer token value)
  | none => Reading.reject (.invalidInteger token.literal)

/-- Reads a truth value: the token is the word `true`, or else it is false. -/
def boolean : M Expr := do
  let token ← Reading.current
  pure (.boolean token (token.is .kwTrue))

/-! ### Operators and parentheses -/

/-- Reads an operator and its operand. -/
def prefixOp (expr : BindingPower → M Expr) : M Expr := do
  let token ← Reading.advance
  let right ← expr .unary
  pure (.prefixOp token token.literal right)

/-- Reads an operator of the given power and its right operand. -/
def infixOp (expr : BindingPower → M Expr) (left : Expr) (power : BindingPower) : M Expr := do
  let token ← Reading.advance
  let right ← expr power
  pure (.infixOp token left token.literal right)

/-- Reads an expression in parentheses, which leave no trace in the tree. -/
def grouping (expr : BindingPower → M Expr) : M Expr := do
  let _ ← Reading.advance
  let inner ← expr .lowest
  let _ ← Reading.expect .rparen
  pure inner

/-! ### Blocks -/

/-- Reads the statements of a block up to its closing brace.  A statement that
cannot be read is recorded and skipped, so that the rest of the block is still
read; only too deep a nesting ends the block as well. -/
def blockStatements (stmt : M Stmt) : Nat → M (List Stmt)
  | 0 => Reading.forever
  | rounds + 1 => do
    let token ← Reading.current
    if token.kind = .rbrace then
      pure []
    else if token.kind = .eof then
      Reading.reject (.unexpectedToken .rbrace .eof)
    else
      match ← Reading.attempt stmt with
      | .ok statement => do
        let _ ← Reading.advance
        let statements ← blockStatements stmt rounds
        pure (statement :: statements)
      | .error diagnostic =>
        if diagnostic.fault.isNesting then
          Reading.fail diagnostic
        else do
          Reading.record diagnostic
          Reading.synchronize true
          blockStatements stmt rounds

/-- Reads a block. -/
def block (stmt : M Stmt) : M Expr := do
  let token ← Reading.advance
  let statements ← Reading.bounded (blockStatements stmt)
  pure (.block token statements)

/-! ### Choices -/

/-- Reads the alternative of a choice, if the word `else` follows. -/
def alternative (expr : BindingPower → M Expr) : M (Option Expr) := do
  let token ← Reading.peek
  if token.kind = .kwElse then do
    let _ ← Reading.advance
    let _ ← Reading.advance
    let value ← expr .lowest
    pure (some value)
  else
    pure none

/-- Reads a choice: a condition, a consequence and perhaps an alternative, each
of them any expression. -/
def conditional (expr : BindingPower → M Expr) : M Expr := do
  let token ← Reading.advance
  let condition ← expr .lowest
  let _ ← Reading.advance
  let consequence ← expr .lowest
  let otherwise ← alternative expr
  pure (.conditional token condition consequence otherwise)

/-! ### Functions -/

/-- Reads one or more names with commas between them. -/
def parameterNames : Nat → M (List Identifier)
  | 0 => Reading.forever
  | rounds + 1 => do
    let name ← Reading.expect .ident
    let ahead ← Reading.peek
    if ahead.kind = .comma then do
      let _ ← Reading.advance
      let names ← parameterNames rounds
      pure (.ofToken name :: names)
    else
      pure [.ofToken name]

/-- Reads a parameter list from its opening to its closing parenthesis. -/
def parameters : M (List Identifier) := do
  let ahead ← Reading.peek
  if ahead.kind = .rparen then do
    let _ ← Reading.advance
    pure []
  else do
    let names ← Reading.bounded parameterNames
    let _ ← Reading.expect .rparen
    pure names

/-- Reads a function: its parameter list and its body, which is any expression. -/
def function (expr : BindingPower → M Expr) : M Expr := do
  let token ← Reading.current
  let _ ← Reading.expect .lparen
  let names ← parameters
  let _ ← Reading.advance
  let body ← expr .lowest
  pure (.function token names body)

/-! ### Calls -/

/-- Reads one or more expressions with commas between them. -/
def argumentValues (expr : BindingPower → M Expr) : Nat → M (List Expr)
  | 0 => Reading.forever
  | rounds + 1 => do
    let _ ← Reading.advance
    let value ← expr .lowest
    let ahead ← Reading.peek
    if ahead.kind = .comma then do
      let _ ← Reading.advance
      let values ← argumentValues expr rounds
      pure (value :: values)
    else
      pure [value]

/-- Reads an argument list from its opening to its closing parenthesis. -/
def arguments (expr : BindingPower → M Expr) : M (List Expr) := do
  let ahead ← Reading.peek
  if ahead.kind = .rparen then do
    let _ ← Reading.advance
    pure []
  else do
    let values ← Reading.bounded (argumentValues expr)
    let _ ← Reading.expect .rparen
    pure values

/-- Reads the argument list of a call. -/
def call (expr : BindingPower → M Expr) (callee : Expr) : M Expr := do
  let token ← Reading.current
  let values ← arguments expr
  pure (.call token callee values)

end Rule

/-! ### Rules by name -/

/-- The rule that an entry for the first token of an expression names. -/
def PrefixRule.read (expr : BindingPower → M Expr) (stmt : M Stmt) : PrefixRule → M Expr
  | .identifier => Rule.identifier
  | .integer => Rule.integer
  | .boolean => Rule.boolean
  | .prefixOp => Rule.prefixOp expr
  | .grouping => Rule.grouping expr
  | .block => Rule.block stmt
  | .conditional => Rule.conditional expr
  | .function => Rule.function expr

/-- The rule that an entry for the continuation of an expression names. -/
def InfixRule.read (expr : BindingPower → M Expr) (left : Expr) (power : BindingPower) :
    InfixRule → M Expr
  | .infixOp => Rule.infixOp expr left power
  | .call => Rule.call expr left

end Script
