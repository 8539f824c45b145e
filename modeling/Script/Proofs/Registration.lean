import Script.Parser

/-!
# Registrations

The grammar of a parser is changed by registering rules, one after the other.  A
registration lets reading come to an end if it neither continues expressions at the end of
the source nor sends the reader of statements back to the table.

## Main definitions

* `Registration` — a change of the grammar, with `Parser.register` and
  `Parser.registerAll`.
* `Registration.IsFinite` — the registrations that let reading come to an end.

## Main results

* `Parser.registerAll_eq` — registrations change nothing but the grammar.
* `Parser.wellFounded_registerAll` — whatever is registered in this way, reading comes to
  an end.
-/

namespace Script

/-- A change of a parser's grammar. -/
inductive Registration where
  /-- A rule reads the expressions that start with a kind of token. -/
  | prefixRule (kind : Kind) (rule : PrefixRule)
  /-- A rule continues expressions at a kind of token, bound with a power. -/
  | continuation (kind : Kind) (power : BindingPower) (rule : InfixRule)
  /-- A rule reads the statements that start with a kind of token. -/
  | statementRule (kind : Kind) (rule : StatementRule)
  /-- The language's own rules are put back. -/
  | standard
  deriving DecidableEq, Repr

/-- No expression is continued at the end of the source, and no statement rule is looked up
again. -/
def Registration.IsFinite : Registration → Prop
  | .continuation kind _ _ => kind ≠ .eof
  | .statementRule _ rule => rule ≠ .lookup
  | .prefixRule .. | .standard => True

namespace Grammar

variable {g : Grammar}

theorem WellFounded.withPrefixRule (hg : g.WellFounded) (kind : Kind) (rule : PrefixRule) :
    (g.withPrefixRule kind rule).WellFounded where
  continuation_eof := hg.continuation_eof
  statementRule_ne_lookup := hg.statementRule_ne_lookup

theorem WellFounded.withContinuation (hg : g.WellFounded) {kind : Kind} (hkind : kind ≠ .eof)
    (power : BindingPower) (rule : InfixRule) :
    (g.withContinuation kind power rule).WellFounded where
  continuation_eof := (if_neg hkind.symm).trans hg.continuation_eof
  statementRule_ne_lookup := hg.statementRule_ne_lookup

theorem WellFounded.withStatementRule (hg : g.WellFounded) (kind : Kind) {rule : StatementRule}
    (hrule : rule ≠ .lookup) : (g.withStatementRule kind rule).WellFounded where
  continuation_eof := hg.continuation_eof
  statementRule_ne_lookup k := by
    by_cases hk : k = kind
    · have hnew : (g.withStatementRule kind rule).statementRule k = some rule := if_pos hk
      rw [hnew]
      exact fun h => hrule (Option.some.inj h)
    · have hold : (g.withStatementRule kind rule).statementRule k = g.statementRule k := if_neg hk
      rw [hold]
      exact hg.statementRule_ne_lookup k

theorem WellFounded.withStandard (hg : g.WellFounded) : g.withStandard.WellFounded where
  continuation_eof := hg.continuation_eof
  statementRule_ne_lookup kind := by
    have hstandard := wellFounded_standard.statementRule_ne_lookup kind
    have hown := hg.statementRule_ne_lookup kind
    show (standard.statementRule kind).or (g.statementRule kind) ≠ some .lookup
    cases hrule : standard.statementRule kind with
    | none => exact hown
    | some rule =>
      rw [hrule] at hstandard
      exact hstandard

end Grammar

namespace Parser

/-- The parser with a change made to its grammar. -/
def register (p : Parser) : Registration → Parser
  | .prefixRule kind rule => p.registerPrefixRule kind rule
  | .continuation kind power rule => p.registerContinuation kind power rule
  | .statementRule kind rule => p.registerStatementRule kind rule
  | .standard => p.registerStandard

/-- The parser with changes made to its grammar, one after the other. -/
def registerAll (p : Parser) (changes : List Registration) : Parser := changes.foldl register p

/-- Registrations change the grammar and nothing else. -/
theorem registerAll_eq (p : Parser) (changes : List Registration) :
    p.registerAll changes = { p with grammar := (p.registerAll changes).grammar } := by
  induction changes generalizing p with
  | nil => rfl
  | cons change changes ih => cases change <;> exact ih _

theorem wellFounded_register {p : Parser} (hp : p.grammar.WellFounded) {change : Registration}
    (hchange : change.IsFinite) : (p.register change).grammar.WellFounded := by
  cases change with
  | prefixRule kind rule => exact hp.withPrefixRule kind rule
  | continuation kind power rule => exact hp.withContinuation hchange power rule
  | statementRule kind rule => exact hp.withStatementRule kind hchange
  | standard => exact hp.withStandard

/-- Reading comes to an end by every grammar that finite registrations lead to. -/
theorem wellFounded_registerAll {p : Parser} (hp : p.grammar.WellFounded)
    {changes : List Registration} (hchanges : ∀ change ∈ changes, change.IsFinite) :
    (p.registerAll changes).grammar.WellFounded := by
  induction changes generalizing p with
  | nil => exact hp
  | cons change changes ih =>
    rw [List.forall_mem_cons] at hchanges
    exact ih (wellFounded_register hp hchanges.1) hchanges.2

end Parser

end Script
