import Script.Grammar.Reading

/-!
# What the tables say

The tables of a grammar decide where expressions start, where they go on and where
they end.  The table of the language's own grammar knows ten operators between
operands and two in front of one.

## Main definitions

* `Kind.infixKinds`, `Kind.prefixKinds` — the kinds of the operators.
* `Grammar.Repowered` — the operators between operands have powers of their own.

## Main results

* `Grammar.continuesAt?_of_none`, `Grammar.continuesAt?_of_some`,
  `Grammar.continuesAt?_of_le` — whether an expression goes on at a token.
* `Grammar.standard_first`, `Grammar.standard_infix`, `Grammar.standard_prefix` — the
  entries of the language's own grammar.
-/

namespace Script

/-- The kinds of the operators between operands. -/
def Kind.infixKinds : List Kind :=
  [.equal, .notEqual, .lessThan, .lessThanOrEqual, .greaterThan, .greaterThanOrEqual, .plus,
    .minus, .asterisk, .slash]

/-- The kinds of the operators in front of an operand. -/
def Kind.prefixKinds : List Kind := [.bang, .minus]

/-- An operator neither ends a statement nor starts one with a word. -/
theorem Kind.infixKinds_plain {kind : Kind} (h : kind ∈ infixKinds) :
    kind ≠ .semicolon ∧ Tokens.startsStatement kind = false := by
  revert kind
  decide

theorem Kind.prefixKinds_plain {kind : Kind} (h : kind ∈ prefixKinds) :
    kind ≠ .semicolon ∧ Tokens.startsStatement kind = false := by
  revert kind
  decide

namespace Grammar

/-! ### Where expressions end -/

variable {g : Grammar} {power : BindingPower} {t : Token}

theorem continuesAt?_of_none (h : g.continuation t.kind = none) :
    g.continuesAt? power t = none := by
  unfold continuesAt?
  split
  · exact h
  · rfl

theorem continuesAt?_of_some {next : Continuation} (h : g.continuation t.kind = some next)
    (hpower : power < next.power) (hsemicolon : t.kind ≠ .semicolon) :
    g.continuesAt? power t = some next := by
  unfold continuesAt?
  have hbinds : g.bindingPower t.kind = next.power := by rw [bindingPower, h]; rfl
  rw [hbinds, if_pos ⟨hsemicolon, hpower⟩, h]

/-- An expression does not go on at a token that binds no tighter than the power. -/
theorem continuesAt?_of_power_le (h : g.bindingPower t.kind ≤ power) :
    g.continuesAt? power t = none := by
  unfold continuesAt?
  rw [if_neg fun hgoes => Nat.not_le.2 hgoes.2 h]

/-- A `;` ends every expression. -/
theorem ne_semicolon_of_continuesAt {next : Continuation} (h : g.continuesAt? power t = some next) :
    t.kind ≠ .semicolon := by
  intro hsemicolon
  rw [continuesAt?, if_neg fun hgoes => hgoes.1 hsemicolon] at h
  cases h

/-- An expression goes on by the entry for the token. -/
theorem continuation_of_continuesAt {next : Continuation}
    (h : g.continuesAt? power t = some next) : g.continuation t.kind = some next := by
  rw [continuesAt?] at h
  split at h
  · exact h
  · cases h

/-- Where an expression does not go on, one that binds tighter does not either. -/
theorem continuesAt?_of_le {q : BindingPower} (h : g.continuesAt? power t = none)
    (hle : power ≤ q) : g.continuesAt? q t = none := by
  unfold continuesAt? at h ⊢
  split
  · next hgoes =>
    rw [if_pos ⟨hgoes.1, Nat.lt_of_le_of_lt hle hgoes.2⟩] at h
    exact h
  · rfl

/-! ### The entries of the language's own grammar -/

/-- The first token of an expression ends no list and no source, and no statement
rule belongs to it. -/
theorem standard_first {kind : Kind} {rule : PrefixRule}
    (h : standard.prefixRule kind = some rule) :
    standard.statementRule kind = none ∧ kind ≠ .rparen ∧ kind ≠ .rbrace ∧ kind ≠ .eof := by
  cases kind <;> first | exact ⟨rfl, by decide, by decide, by decide⟩ | cases h

theorem standard_block {kind : Kind} (h : standard.prefixRule kind = some .block) :
    kind = .lbrace := by
  cases kind <;> first | rfl | cases h

theorem standard_statement {kind : Kind} {rule : StatementRule}
    (h : standard.statementRule kind = some rule) : kind ≠ .rbrace ∧ kind ≠ .eof := by
  cases kind <;> first | exact ⟨by decide, by decide⟩ | cases h

theorem standard_infix {kind : Kind} (h : kind ∈ Kind.infixKinds) :
    ∃ q, standard.continuation kind = some ⟨q, .infixOp⟩ ∧ .equality ≤ q ∧ q ≤ .multiplicative := by
  simp only [Kind.infixKinds, List.mem_cons, List.not_mem_nil, or_false] at h
  rcases h with rfl | rfl | rfl | rfl | rfl | rfl | rfl | rfl | rfl | rfl <;>
    exact ⟨_, rfl, by decide, by decide⟩

theorem standard_prefix {kind : Kind} (h : kind ∈ Kind.prefixKinds) :
    standard.prefixRule kind = some .prefixOp := by
  simp only [Kind.prefixKinds, List.mem_cons, List.not_mem_nil, or_false] at h
  rcases h with rfl | rfl <;> rfl

/-! ### Operators with powers of their own -/

/-- The grammar is the language's own, but for the powers of the ten operators between
operands: these bind tighter than nothing at all, and less tight than an operator in
front of an operand. -/
structure Repowered (g : Grammar) : Prop where
  /-- Expressions start as they do in the language. -/
  prefixRule : g.prefixRule = standard.prefixRule
  /-- Statements start as they do in the language. -/
  statementRule : g.statementRule = standard.statementRule
  /-- The operators are read as operators. -/
  operator : ∀ kind ∈ Kind.infixKinds,
    ∃ q, g.continuation kind = some ⟨q, .infixOp⟩ ∧ .equality ≤ q ∧ q ≤ .multiplicative
  /-- Nothing else has changed. -/
  others : ∀ kind, kind ∉ Kind.infixKinds → g.continuation kind = standard.continuation kind

theorem repowered_standard : standard.Repowered where
  prefixRule := rfl
  statementRule := rfl
  operator _ h := standard_infix h
  others _ _ := rfl

/-- A new power for an operator is only that. -/
theorem Repowered.withContinuation (hg : g.Repowered) {kind : Kind} (hkind : kind ∈ Kind.infixKinds)
    {q : BindingPower} (hlow : .equality ≤ q) (hhigh : q ≤ .multiplicative) :
    (g.withContinuation kind q .infixOp).Repowered where
  prefixRule := hg.prefixRule
  statementRule := hg.statementRule
  operator k hk := by
    by_cases heq : k = kind
    · exact ⟨q, if_pos heq, hlow, hhigh⟩
    · obtain ⟨q', hrule, hbounds⟩ := hg.operator k hk
      exact ⟨q', (if_neg heq).trans hrule, hbounds⟩
  others k hk := by
    have hne : k ≠ kind := by
      rintro rfl
      exact hk hkind
    exact (if_neg hne).trans (hg.others k hk)

/-- An operator goes on with every expression that binds less tight than it. -/
theorem Repowered.continuesAt? (hg : g.Repowered) (hkind : t.kind ∈ Kind.infixKinds)
    (hpower : power < g.bindingPower t.kind) :
    g.continuesAt? power t = some ⟨g.bindingPower t.kind, .infixOp⟩ := by
  obtain ⟨q, hrule, -⟩ := hg.operator t.kind hkind
  have hq : g.bindingPower t.kind = q := by rw [bindingPower, hrule]; rfl
  rw [hq] at hpower ⊢
  exact continuesAt?_of_some hrule hpower (Kind.infixKinds_plain hkind).1

theorem Repowered.bindingPower_bounds (hg : g.Repowered) {kind : Kind}
    (hkind : kind ∈ Kind.infixKinds) :
    .equality ≤ g.bindingPower kind ∧ g.bindingPower kind ≤ .multiplicative := by
  obtain ⟨q, hrule, hbounds⟩ := hg.operator kind hkind
  rw [bindingPower, hrule]
  exact hbounds

end Grammar

end Script
