import Script.Proofs.Nesting

/-!
# Two tokens and a reader

A parser need not have the tokens of its source at hand.  It can keep the current token and
the one ahead in two places and read one more from the source whenever it moves on; and it can
keep the rule that continues an expression at a kind of token and the power of that kind in
tables of their own, which are changed together.  Such a machine looks at nothing but these two
tokens and looks rule and power up one by one, whenever it needs them.

## Main definitions

* `Lookups` — the four tables, with `Lookups.continuesAt?`, which looks rule and power up one by
  one, `Lookups.grammar`, the grammar they amount to, and `Lookups.InStep`, which says that rules
  and powers belong together.
* `Machine` — the state of a machine, with `Machine.ofLexer`.
* `Machine.advance`, `Machine.expect`, `Machine.synchronize` and the other single moves.
* `Machine.unread`, `Machine.parser` — the tokens that are still to come, and the parser that
  has them at hand.
-/

namespace Script

/-! ### Tables -/

attribute [ext] Grammar

/-- The rules that a machine looks up by the kind of a token, and the powers. -/
structure Lookups where
  /-- The rules for the first token of a statement. -/
  statementRule : Kind → Option StatementRule
  /-- The rules for the first token of an expression. -/
  prefixRule : Kind → Option PrefixRule
  /-- The rules that continue an expression. -/
  infixRule : Kind → Option InfixRule
  /-- How tightly the tokens bind at which an expression is continued. -/
  power : Kind → Option BindingPower

namespace Lookups

/-- Tables without an entry. -/
def empty : Lookups := ⟨fun _ => none, fun _ => none, fun _ => none, fun _ => none⟩

/-- Puts a rule for the first token of an expression into its table. -/
def withPrefixRule (t : Lookups) (kind : Kind) (rule : PrefixRule) : Lookups :=
  { t with prefixRule := fun k => if k = kind then some rule else t.prefixRule k }

/-- Puts a rule that continues an expression, and the power of its token, into their tables. -/
def withContinuation (t : Lookups) (kind : Kind) (power : BindingPower) (rule : InfixRule) :
    Lookups :=
  { t with
    power := fun k => if k = kind then some power else t.power k
    infixRule := fun k => if k = kind then some rule else t.infixRule k }

/-- Puts a rule for the first token of a statement into its table. -/
def withStatementRule (t : Lookups) (kind : Kind) (rule : StatementRule) : Lookups :=
  { t with statementRule := fun k => if k = kind then some rule else t.statementRule k }

/-- Puts the entries of the language's own grammar into the tables, one after the other. -/
def withStandard (t : Lookups) : Lookups :=
  t
  |>.withContinuation .equal .equality .infixOp
  |>.withContinuation .notEqual .equality .infixOp
  |>.withContinuation .lessThan .relational .infixOp
  |>.withContinuation .lessThanOrEqual .relational .infixOp
  |>.withContinuation .greaterThan .relational .infixOp
  |>.withContinuation .greaterThanOrEqual .relational .infixOp
  |>.withContinuation .plus .additive .infixOp
  |>.withContinuation .minus .additive .infixOp
  |>.withContinuation .asterisk .multiplicative .infixOp
  |>.withContinuation .slash .multiplicative .infixOp
  |>.withContinuation .lparen .call .call
  |>.withPrefixRule .ident .identifier
  |>.withPrefixRule .int .integer
  |>.withPrefixRule .kwTrue .boolean
  |>.withPrefixRule .kwFalse .boolean
  |>.withPrefixRule .bang .prefixOp
  |>.withPrefixRule .minus .prefixOp
  |>.withPrefixRule .lparen .grouping
  |>.withPrefixRule .lbrace .block
  |>.withPrefixRule .kwIf .conditional
  |>.withPrefixRule .kwFunction .function
  |>.withStatementRule .kwLet .letBinding
  |>.withStatementRule .kwReturn .returnValue

/-- Makes a change to the tables. -/
def register (t : Lookups) : Registration → Lookups
  | .prefixRule kind rule => t.withPrefixRule kind rule
  | .continuation kind power rule => t.withContinuation kind power rule
  | .statementRule kind rule => t.withStatementRule kind rule
  | .standard => t.withStandard

/-- How tightly a token binds to the expression before it. -/
def bindingPower (t : Lookups) (kind : Kind) : BindingPower := (t.power kind).getD .lowest

/-- The grammar that the tables amount to. -/
def grammar (t : Lookups) : Grammar where
  prefixRule := t.prefixRule
  continuation kind := (t.infixRule kind).map fun rule => ⟨t.bindingPower kind, rule⟩
  statementRule := t.statementRule

/-- How an expression goes on at the token behind it, if the token binds tighter than a power.
The power and the rule are looked up one after the other; without a rule the expression ends. -/
def continuesAt? (t : Lookups) (power : BindingPower) (ahead : Token) : Option Continuation :=
  if ahead.kind ≠ .semicolon ∧ power < t.bindingPower ahead.kind then
    match t.infixRule ahead.kind with
    | none => none
    | some rule => some ⟨t.bindingPower ahead.kind, rule⟩
  else
    none

/-- The kinds that have a power are those at which a rule continues expressions. -/
def InStep (t : Lookups) : Prop := ∀ kind, (t.power kind).isSome = (t.infixRule kind).isSome

theorem inStep_empty : empty.InStep := fun _ => rfl

variable {t : Lookups}

/-- The two tables are changed together. -/
theorem InStep.withContinuation (ht : t.InStep) (kind : Kind) (power : BindingPower)
    (rule : InfixRule) : (t.withContinuation kind power rule).InStep := by
  intro k
  by_cases hk : k = kind
  · simp [Lookups.withContinuation, hk]
  · simpa [Lookups.withContinuation, hk] using ht k

theorem InStep.withStandard (ht : t.InStep) : t.withStandard.InStep := by
  intro kind
  cases kind <;> first | rfl | exact ht _

/-- No change of the tables brings them out of step. -/
theorem InStep.register (ht : t.InStep) (change : Registration) : (t.register change).InStep := by
  cases change with
  | prefixRule kind rule => exact ht
  | continuation kind power rule => exact ht.withContinuation kind power rule
  | statementRule kind rule => exact ht
  | standard => exact ht.withStandard

/-- In tables that are in step a token that binds has a rule. -/
theorem InStep.isSome_infixRule (ht : t.InStep) {power : BindingPower} {kind : Kind}
    (h : power < t.bindingPower kind) : (t.infixRule kind).isSome = true := by
  rw [← ht kind]
  cases hpower : t.power kind with
  | some q => rfl
  | none =>
    rw [bindingPower, hpower] at h
    exact absurd h (Nat.not_lt_zero _)

/-- There the powers are those of the grammar. -/
theorem InStep.bindingPower_grammar (ht : t.InStep) (kind : Kind) :
    t.grammar.bindingPower kind = t.bindingPower kind := by
  have hboth := ht kind
  cases hrule : t.infixRule kind with
  | some rule => simp [Grammar.bindingPower, grammar, hrule]
  | none =>
    rw [hrule] at hboth
    have hpower : t.power kind = none := by simpa using hboth
    simp [Grammar.bindingPower, grammar, bindingPower, hrule, hpower]

/-- So an expression goes on just where it does by the grammar. -/
theorem InStep.continuesAt?_grammar (ht : t.InStep) (power : BindingPower) (ahead : Token) :
    t.grammar.continuesAt? power ahead = t.continuesAt? power ahead := by
  rw [Grammar.continuesAt?, Lookups.continuesAt?, ht.bindingPower_grammar]
  by_cases hgoes : ahead.kind ≠ .semicolon ∧ power < t.bindingPower ahead.kind
  · rw [if_pos hgoes, if_pos hgoes]
    -- the branch without a rule is not taken
    obtain ⟨rule, hrule⟩ := Option.isSome_iff_exists.1 (ht.isSome_infixRule hgoes.2)
    simp only [grammar, hrule, Option.map_some]
  · rw [if_neg hgoes, if_neg hgoes]

/-! ### The grammar of the tables -/

variable (t)

theorem grammar_withContinuation (kind : Kind) (power : BindingPower) (rule : InfixRule) :
    (t.withContinuation kind power rule).grammar = t.grammar.withContinuation kind power rule := by
  ext1
  · rfl
  · funext k
    by_cases hk : k = kind <;>
      simp [grammar, withContinuation, Grammar.withContinuation, bindingPower, hk]
  · rfl

theorem grammar_withStandard : t.withStandard.grammar = t.grammar.withStandard := by
  ext1 <;> funext kind <;> cases kind <;> rfl

/-- The tables that are filled from nothing amount to the grammar of the language. -/
theorem grammar_standard : empty.withStandard.grammar = Grammar.standard := by
  rw [grammar_withStandard]
  ext1 <;> funext kind <;> cases kind <;> rfl

end Lookups

/-! ### Machines -/

/-- The state of a machine. -/
structure Machine where
  /-- What is still to be read. -/
  lexer : Lexer
  /-- The current token. -/
  current : Token
  /-- The token after the current one. -/
  peek : Token
  /-- The diagnostics, in the order in which they were recorded. -/
  diagnostics : List Diagnostic
  /-- How many expressions the machine stands in. -/
  depth : Nat
  /-- The tables. -/
  lookups : Lookups

namespace Machine

/-- Takes the current token.  The one ahead takes its place, and the one behind it is read. -/
def advance (m : Machine) : Token × Machine :=
  (m.current, { m with lexer := m.lexer.next.2, current := m.peek, peek := m.lexer.next.1 })

/-- A machine for what is left of a source.  It reads the first two tokens at once. -/
def ofLexer (lexer : Lexer) : Machine :=
  let m : Machine := ⟨lexer, Token.eof, Token.eof, [], 0, Lookups.empty.withStandard⟩
  m.advance.2.advance.2

/-- A diagnostic at the current token. -/
def error (m : Machine) (fault : Fault) : Diagnostic := ⟨fault, m.current⟩

/-- Moves on to the token ahead if it has the given kind, and stays otherwise. -/
def expect (m : Machine) (kind : Kind) : Except Diagnostic Token × Machine :=
  if m.peek.is kind then (.ok m.advance.2.current, m.advance.2)
  else (.error ⟨.unexpectedToken kind m.peek.kind, m.peek⟩, m)

/-- Adds a diagnostic. -/
def record (m : Machine) (diagnostic : Diagnostic) : Machine :=
  { m with diagnostics := m.diagnostics ++ [diagnostic] }

/-- Notes that an expression is entered, unless there is no room for one. -/
def enterNesting (m : Machine) : Except Diagnostic Unit × Machine :=
  if maxNesting ≤ m.depth then (.error (m.error (.nestingTooDeep maxNesting)), m)
  else (.ok (), { m with depth := m.depth + 1 })

/-- Notes that an expression is left. -/
def leaveNesting (m : Machine) : Machine := { m with depth := m.depth - 1 }

/-- Makes a change to the tables. -/
def register (m : Machine) (change : Registration) : Machine :=
  { m with lookups := m.lookups.register change }

/-- How tightly the token ahead binds. -/
def peekBindingPower (m : Machine) : BindingPower := m.lookups.bindingPower m.peek.kind

/-! ### What is still to come -/

/-- The tokens that are still to come, up to the end of the source. -/
def unread (m : Machine) : Tokens :=
  (m.current :: m.peek :: m.lexer.remaining).takeWhile fun t => t.kind ≠ .eof

/-- The parser that has the tokens at hand. -/
def parser (m : Machine) : Parser := ⟨m.unread, m.diagnostics, m.depth, m.lookups.grammar⟩

/-! ### Recovery -/

/-- Skips the rest of a statement that could not be read, in a number of rounds.  A `;` is
looked for before the machine moves on and a `let` or a `return` behind it, so that it moves on
from one on which it starts. -/
def recoverWithin (inBlock : Bool) : Nat → Machine → Option Machine
  | 0, _ => none
  | rounds + 1, m =>
    if m.current.kind = .eof then some m
    else if m.current.kind = .rbrace ∧ inBlock then some m
    else if m.current.kind = .semicolon then some m.advance.2
    else if Tokens.startsStatement m.advance.2.current.kind then some m.advance.2
    else recoverWithin inBlock rounds m.advance.2

/-- Skips the rest of a statement that could not be read.  If a loop is not over after one round
more than there are tokens, it never ends. -/
def synchronize (m : Machine) (inBlock : Bool) : Option Machine :=
  recoverWithin inBlock (m.unread.length + 1) m

end Machine

end Script
