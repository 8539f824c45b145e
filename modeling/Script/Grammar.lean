import Script.BindingPower
import Script.Token

/-!
# Grammars

A grammar says which rule reads an expression or a statement that starts with a
token of a given kind, and which rule continues an expression at a token of a
given kind and how tightly it binds.  Grammars are extended entry by entry: a
later entry for a kind takes the place of an earlier one.

## Main definitions

* `PrefixRule`, `InfixRule`, `StatementRule` — the rules a grammar can name.
* `Grammar` — the three tables, with `Grammar.bindingPower`.
* `Grammar.prefixKinds`, `Grammar.continuationKinds`, `Grammar.statementKinds` — the
  kinds that have an entry in a table.
* `Grammar.withPrefixRule`, `Grammar.withContinuation`, `Grammar.withStatementRule`,
  `Grammar.withStandard` — the extensions.
* `Grammar.standard` — the grammar of the language.
-/

namespace Script

/-! ### Rules -/

/-- A rule for an expression that starts with the current token. -/
inductive PrefixRule where
  /-- The token is a name. -/
  | identifier
  /-- The token is an integer. -/
  | integer
  /-- The token is a truth value. -/
  | boolean
  /-- The token is an operator in front of its operand. -/
  | prefixOp
  /-- The token opens an expression in parentheses. -/
  | grouping
  /-- The token opens a block. -/
  | block
  /-- The token starts a choice. -/
  | conditional
  /-- The token starts a function. -/
  | function
  deriving DecidableEq, Repr

/-- A rule that continues an expression at the current token. -/
inductive InfixRule where
  /-- The token is an operator between operands. -/
  | infixOp
  /-- The token opens an argument list. -/
  | call
  deriving DecidableEq, Repr

/-- A rule for a statement that starts with the current token. -/
inductive StatementRule where
  /-- The rule is looked up again by the kind of the token. -/
  | lookup
  /-- The statement binds a name. -/
  | letBinding
  /-- The statement hands a value back. -/
  | returnValue
  /-- The statement is an expression. -/
  | expression
  deriving DecidableEq, Repr

/-- How an expression continues at a token: by which rule, and how tightly the
token binds. -/
structure Continuation where
  /-- How tightly the token binds. -/
  power : BindingPower
  /-- The rule that reads on. -/
  rule : InfixRule
  deriving DecidableEq, Repr

/-! ### Tables -/

/-- Which rule applies at which kind of token. -/
structure Grammar where
  /-- The rules for the first token of an expression. -/
  prefixRule : Kind → Option PrefixRule
  /-- The rules that continue an expression. -/
  continuation : Kind → Option Continuation
  /-- The rules for the first token of a statement; where there is none, the
  statement is an expression. -/
  statementRule : Kind → Option StatementRule

namespace Grammar

/-- How tightly a token binds to the expression before it: not at all if no rule
continues an expression there. -/
def bindingPower (g : Grammar) (kind : Kind) : BindingPower :=
  ((g.continuation kind).map Continuation.power).getD .lowest

/-- The kinds of token that start an expression. -/
def prefixKinds (g : Grammar) : List Kind := Kind.all.filter fun kind => (g.prefixRule kind).isSome

/-- The kinds of token that continue an expression. -/
def continuationKinds (g : Grammar) : List Kind :=
  Kind.all.filter fun kind => (g.continuation kind).isSome

/-- The kinds of token that start a statement with a rule of its own. -/
def statementKinds (g : Grammar) : List Kind :=
  Kind.all.filter fun kind => (g.statementRule kind).isSome

/-- The grammar in which `rule` reads the expressions that start with `kind`. -/
def withPrefixRule (g : Grammar) (kind : Kind) (rule : PrefixRule) : Grammar :=
  { g with prefixRule := fun k => if k = kind then some rule else g.prefixRule k }

/-- The grammar in which `rule` continues expressions at `kind`, bound with `power`. -/
def withContinuation (g : Grammar) (kind : Kind) (power : BindingPower) (rule : InfixRule) :
    Grammar :=
  { g with continuation := fun k => if k = kind then some ⟨power, rule⟩ else g.continuation k }

/-- The grammar in which `rule` reads the statements that start with `kind`. -/
def withStatementRule (g : Grammar) (kind : Kind) (rule : StatementRule) : Grammar :=
  { g with statementRule := fun k => if k = kind then some rule else g.statementRule k }

/-- The grammar of the language. -/
def standard : Grammar where
  prefixRule
    | .ident => some .identifier
    | .int => some .integer
    | .kwTrue | .kwFalse => some .boolean
    | .bang | .minus => some .prefixOp
    | .lparen => some .grouping
    | .lbrace => some .block
    | .kwIf => some .conditional
    | .kwFunction => some .function
    | _ => none
  continuation
    | .equal | .notEqual => some ⟨.equality, .infixOp⟩
    | .lessThan | .lessThanOrEqual | .greaterThan | .greaterThanOrEqual =>
      some ⟨.relational, .infixOp⟩
    | .plus | .minus => some ⟨.additive, .infixOp⟩
    | .asterisk | .slash => some ⟨.multiplicative, .infixOp⟩
    | .lparen => some ⟨.call, .call⟩
    | _ => none
  statementRule
    | .kwLet => some .letBinding
    | .kwReturn => some .returnValue
    | _ => none

/-- The grammar with every entry of the language's own grammar put back; entries
for other kinds stay. -/
def withStandard (g : Grammar) : Grammar where
  prefixRule kind := (standard.prefixRule kind).or (g.prefixRule kind)
  continuation kind := (standard.continuation kind).or (g.continuation kind)
  statementRule kind := (standard.statementRule kind).or (g.statementRule kind)

end Grammar

end Script
