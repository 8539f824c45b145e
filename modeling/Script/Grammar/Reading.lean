import Script.Rule.Expression

/-!
# Reading by a grammar

An expression is read by the rule for its first token and then continued for as
long as the next token binds tighter than what stands before it.  Expressions
stand inside each other only to a limited depth: the room that is left is counted
down on the way in, and reading stops with a fault where there is none.

## Main definitions

* `maxNesting` — how many expressions may stand inside each other.
* `Grammar.expression`, `Grammar.statement`, `Grammar.program` — reading with a
  given grammar, in a given room.
* `Grammar.operators`, `Grammar.programStatements` — the loops of the first and
  the last of them.
-/

namespace Script

/-- How many expressions may stand inside each other. -/
def maxNesting : Nat := 64

namespace Grammar

/-- How the expression that ends before the token `ahead` goes on there, if the
token binds tighter than `power`.  A `;` ends every expression. -/
def continuesAt? (g : Grammar) (power : BindingPower) (ahead : Token) : Option Continuation :=
  if ahead.kind ≠ .semicolon ∧ power < g.bindingPower ahead.kind then g.continuation ahead.kind
  else none

/-- Continues an expression for as long as the next token binds tighter than `power`. -/
def operators (g : Grammar) (expr : ExprReader) (power : BindingPower) : Nat → Expr → Step Expr
  | 0, _ => Step.forever
  | rounds + 1, left => do
    let ahead ← Step.peek
    match g.continuesAt? power ahead with
    | none => pure left
    | some next => do
      let _ ← Step.advance
      let left ← next.rule.read expr left next.power
      operators g expr power rounds left

/-- Reads a statement: by the rule for its first token, or else as an expression. -/
def statementWith (g : Grammar) (expr : ExprReader) : Step Stmt := do
  let token ← Step.current
  ((g.statementRule token.kind).getD .expression).read expr

/-- Reads an expression whose operators all bind tighter than `power`: by the rule
for its first token, continued by the operators that follow. -/
def expressionWith (g : Grammar) (expr : ExprReader) (power : BindingPower) : Step Expr := do
  let token ← Step.current
  match g.prefixRule token.kind with
  | none => Step.reject (.noPrefixRule token.kind)
  | some rule => do
    let left ← rule.read expr (g.statementWith expr)
    Step.bounded fun rounds => g.operators expr power rounds left

/-- Reads an expression whose operators all bind tighter than a given power, where
`room` more expressions may stand inside each other. -/
def expression (g : Grammar) : Nat → ExprReader
  | 0, _ => Step.reject (.nestingTooDeep maxNesting)
  | room + 1, power => g.expressionWith (expression g room) power

/-- Reads a statement, where `room` expressions may stand inside each other. -/
def statement (g : Grammar) (room : Nat) : Step Stmt := g.statementWith (g.expression room)

/-- Reads statements up to the end of the source.  A statement that cannot be read
is recorded and skipped. -/
def programStatements {M : Type → Type} [Reading M] (stmt : M Stmt) : Nat → M (List Stmt)
  | 0 => Reading.forever
  | rounds + 1 => do
    let token ← Reading.current
    if token.kind = .eof then
      pure []
    else
      match ← Reading.attempt stmt with
      | .ok statement => do
        let _ ← Reading.advance
        let statements ← programStatements stmt rounds
        pure (statement :: statements)
      | .error diagnostic => do
        Reading.record diagnostic
        Reading.synchronize false
        programStatements stmt rounds

/-- Reads a program, where `room` expressions may stand inside each other. -/
def program (g : Grammar) (room : Nat) : Step Program := do
  let statements ← Step.bounded (programStatements (g.statement room))
  pure ⟨statements⟩

@[simp] theorem expression_zero (g : Grammar) (power : BindingPower) :
    g.expression 0 power = Step.reject (.nestingTooDeep maxNesting) := rfl

@[simp] theorem expression_succ (g : Grammar) (room : Nat) (power : BindingPower) :
    g.expression (room + 1) power = g.expressionWith (g.expression room) power := rfl

end Grammar

end Script
