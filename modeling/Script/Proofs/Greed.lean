import Script.Proofs.Machine.Run
import Script.Proofs.Rounds
import Script.Proofs.Tables

/-!
# Expressions are greedy

An expression goes on for as long as the token ahead binds tighter than it has to.  So what
stands behind an expression is a `;` or a token that binds no tighter, however the tables have
been changed, and however many expressions have been read inside by other powers.  Where a
statement has no `;` of its own, the next one does not start with a token at which an expression
goes on, for then it would have gone on there.

## Main definitions

* `Grammar.statementRounds` — the two kinds of rounds over statements.

## Main results

* `Grammar.continuesAt?_eq_none_iff` — where an expression ends.
* `Grammar.ends_expression`, `Grammar.ends_statement` — what stands behind an expression and
  behind a statement.
* `Grammar.bindingPower_of_neighbours` — how the statement behind one without a `;` starts.
* `Machine.ShowsAt.ends_expression` — what stands behind an expression that a machine has read.
* `Machine.greedy` — **expressions are greedy, whatever has been done with a machine.**
-/

namespace Script

open Step

/-! ### Loops -/

namespace Step

variable {α : Type}

/-- A loop over values ends with a round that goes on no further. -/
theorem exists_of_fold {round : α → Step (Option α)} {n : Nat} {value last : α} {ts rest : Tokens}
    {log : List Diagnostic} (h : fold round n value ts = .ok last rest log) :
    ∃ mid log', round last mid = .ok none rest log' := by
  induction n generalizing value ts log with
  | zero => cases h
  | succ n ih =>
    obtain ⟨next, mid, log₁, log₂, hround, hmore, -⟩ := exists_of_bind_eq_ok h
    cases next with
    | none =>
      cases hmore
      exact ⟨ts, log₁, hround⟩
    | some next => exact ih hmore

theorem of_skipSemicolon {ts rest : Tokens} {log : List Diagnostic}
    (h : skipSemicolon ts = .ok () rest log) :
    rest.current.kind = .semicolon ∨ rest = ts ∧ ts.peek.kind ≠ .semicolon := by
  rw [skipSemicolon_apply] at h
  by_cases hsemicolon : ts.peek.kind = .semicolon
  · rw [if_pos hsemicolon] at h
    cases h
    exact .inl hsemicolon
  · rw [if_neg hsemicolon] at h
    cases h
    exact .inr ⟨rfl, hsemicolon⟩

end Step

/-! ### Where expressions and statements end -/

namespace Grammar

variable {g : Grammar} {expr : ExprReader} {power : BindingPower} {ts rest : Tokens}
  {log : List Diagnostic}

/-- An expression ends in front of a `;` and of a token that binds no tighter than the power. -/
theorem continuesAt?_eq_none_iff {t : Token} :
    g.continuesAt? power t = none ↔ t.kind = .semicolon ∨ g.bindingPower t.kind ≤ power := by
  constructor
  · intro h
    by_contra hends
    rw [not_or] at hends
    have hpower : power < g.bindingPower t.kind := Nat.not_le.1 hends.2
    rw [continuesAt?, if_pos ⟨hends.1, hpower⟩] at h
    rw [bindingPower, h] at hpower
    exact Nat.not_lt_zero _ hpower
  · rintro (hsemicolon | hpower)
    · rw [continuesAt?, if_neg fun hgoes => hgoes.1 hsemicolon]
    · exact continuesAt?_of_power_le hpower

theorem ends_operatorRound {left : Expr}
    (h : g.operatorRound expr power left ts = .ok none rest log) :
    g.continuesAt? power rest.peek = none := by
  rw [operatorRound, peek_bind] at h
  cases hnext : g.continuesAt? power ts.peek with
  | none =>
    simp only [hnext, pure_apply] at h
    cases h
    exact hnext
  | some next =>
    simp only [hnext, advance_bind] at h
    obtain ⟨e, mid, log₁, log₂, -, hpure, -⟩ := exists_of_bind_eq_ok h
    rw [pure_apply] at hpure
    cases hpure

/-- What stands behind an expression does not go on with it, by whatever powers the expressions
inside have been read. -/
theorem ends_expression {room : Nat} {e : Expr} (h : g.expression room power ts = .ok e rest log) :
    g.continuesAt? power rest.peek = none := by
  cases room with
  | zero => cases h
  | succ room =>
    rw [expression_succ, expressionWith, current_bind] at h
    cases hrule : g.prefixRule ts.current.kind with
    | none =>
      simp only [hrule] at h
      cases h
    | some rule =>
      simp only [hrule] at h
      obtain ⟨left, mid, log₁, log₂, -, hloop, -⟩ := exists_of_bind_eq_ok h
      rw [bounded_apply, operators_eq_fold] at hloop
      obtain ⟨stop, log', hround⟩ := exists_of_fold hloop
      exact ends_operatorRound hround

/-- The expression at the end of a statement, and the `;` behind it. -/
theorem ends_value {room : Nat} {make : Expr → Stmt} {s : Stmt}
    (h : (g.expression room .lowest >>= fun e =>
      skipSemicolon >>= fun _ => (pure (make e) : Step Stmt)) ts = .ok s rest log) :
    (∃ e, s = make e) ∧ (rest.current.kind ≠ .semicolon →
      rest.peek.kind ≠ .semicolon ∧ g.bindingPower rest.peek.kind = .lowest) := by
  obtain ⟨e, mid, log₁, log₂, hexpr, hmore, -⟩ := exists_of_bind_eq_ok h
  obtain ⟨_, stop, log₃, log₄, hskip, hpure, -⟩ := exists_of_bind_eq_ok hmore
  cases hpure
  refine ⟨⟨e, rfl⟩, ?_⟩
  intro hopen
  rcases of_skipSemicolon hskip with hsemicolon | ⟨rfl, hahead⟩
  · -- a `;` that has been taken is the current token
    exact absurd hsemicolon hopen
  · rcases continuesAt?_eq_none_iff.1 (ends_expression hexpr) with hsemicolon | hpower
    · exact absurd hsemicolon hahead
    · exact ⟨hahead, BindingPower.rank_injective (Nat.le_zero.1 hpower)⟩

/-- A statement is built from its first token.  If it does not end in a `;`, it ends where its
expression does. -/
theorem ends_statement {room : Nat} {s : Stmt} (h : g.statement room ts = .ok s rest log) :
    s.token = ts.current ∧ (rest.current.kind ≠ .semicolon →
      rest.peek.kind ≠ .semicolon ∧ g.bindingPower rest.peek.kind = .lowest) := by
  rw [statement, statementWith, current_bind] at h
  revert h
  generalize (g.statementRule ts.current.kind).getD .expression = rule
  intro h
  cases rule with
  | lookup => cases h
  | letBinding =>
    rw [StatementRule.read, Rule.letBinding, current_bind] at h
    obtain ⟨name, mid, log₁, log₂, -, hassign, -⟩ := exists_of_bind_eq_ok h
    obtain ⟨_, mid, log₃, log₄, -, hvalue, -⟩ := exists_of_bind_eq_ok hassign
    rw [advance_bind] at hvalue
    obtain ⟨⟨e, rfl⟩, hends⟩ := ends_value hvalue
    exact ⟨rfl, hends⟩
  | returnValue =>
    rw [StatementRule.read, Rule.returnValue, advance_bind] at h
    obtain ⟨⟨e, rfl⟩, hends⟩ := ends_value h
    exact ⟨rfl, hends⟩
  | expression =>
    rw [StatementRule.read, Rule.expressionStmt, current_bind] at h
    obtain ⟨⟨e, rfl⟩, hends⟩ := ends_value h
    exact ⟨rfl, hends⟩

end Grammar

/-! ### Neighbours -/

namespace Grammar

variable {g : Grammar} {room : Nat} {ts mid out : Tokens} {s s' : Stmt}
  {log log' : List Diagnostic}

/-- A round over the statements of a program that reads a statement takes its last token. -/
theorem exists_of_programRound {stmt : Step Stmt}
    (h : programRound stmt ts = .ok (.read s) mid log) :
    ∃ last, stmt ts = .ok s last log ∧ mid = last.tail := by
  by_cases heof : ts.current.kind = .eof
  · rw [programRound_of_eof heof] at h
    cases h
  cases hstmt : stmt ts with
  | ok s' last log' =>
    rw [programRound_of_ok heof hstmt] at h
    cases h
    exact ⟨last, rfl, rfl⟩
  | fail d last log' =>
    rw [programRound_of_fail heof hstmt] at h
    cases h
  | diverges =>
    rw [programRound_of_diverges heof hstmt] at h
    cases h

/-- So does one over the statements of a block. -/
theorem exists_of_blockRound {stmt : Step Stmt}
    (h : Rule.blockRound stmt ts = .ok (.read s) mid log) :
    ∃ last, stmt ts = .ok s last log ∧ mid = last.tail := by
  by_cases hbrace : ts.current.kind = .rbrace
  · rw [Rule.blockRound_of_rbrace hbrace] at h
    cases h
  by_cases heof : ts.current.kind = .eof
  · rw [Rule.blockRound_of_eof heof] at h
    cases h
  cases hstmt : stmt ts with
  | ok s' last log' =>
    rw [Rule.blockRound_of_ok hbrace heof hstmt] at h
    cases h
    exact ⟨last, rfl, rfl⟩
  | fail d last log' =>
    cases hnesting : d.fault.isNesting with
    | true =>
      rw [Rule.blockRound_of_nesting hbrace heof hstmt hnesting] at h
      cases h
    | false =>
      rw [Rule.blockRound_of_fail hbrace heof hstmt hnesting] at h
      cases h
  | diverges =>
    rw [Rule.blockRound_of_diverges hbrace heof hstmt] at h
    cases h

/-- The rounds that the loop over the statements of a program and the one over those of a block
repeat. -/
def statementRounds (stmt : Step Stmt) : List (Step Round) :=
  [programRound stmt, Rule.blockRound stmt]

theorem exists_of_statementRounds {stmt : Step Stmt} {round : Step Round}
    (hround : round ∈ statementRounds stmt) (h : round ts = .ok (.read s) mid log) :
    ∃ last, stmt ts = .ok s last log ∧ mid = last.tail := by
  rw [statementRounds, List.mem_cons, List.mem_singleton] at hround
  rcases hround with rfl | rfl
  · exact exists_of_programRound h
  · exact exists_of_blockRound h

/-- Where one round over statements reads a statement that does not end in a `;`, and the next
one reads a statement, too, this does not start with a token at which expressions go on. -/
theorem bindingPower_of_neighbours {round : Step Round}
    (hround : round ∈ statementRounds (g.statement room)) (h : round ts = .ok (.read s) mid log)
    (h' : round mid = .ok (.read s') out log') :
    ∃ last, g.statement room ts = .ok s last log ∧ mid = last.tail ∧ s'.token = mid.current ∧
      (last.current.kind ≠ .semicolon → g.bindingPower s'.token.kind = .lowest) := by
  obtain ⟨last, hstmt, rfl⟩ := exists_of_statementRounds hround h
  obtain ⟨last', hstmt', rfl⟩ := exists_of_statementRounds hround h'
  have hfirst := (ends_statement hstmt').1
  refine ⟨last, hstmt, rfl, hfirst, ?_⟩
  intro hopen
  rw [hfirst]
  exact ((ends_statement hstmt).2 hopen).2

end Grammar

/-! ### Machines -/

namespace Machine

variable {source : Lexer} {i : Nat} {m m' : Machine} {power : BindingPower} {e : Expr}

/-- What stands behind an expression that a machine has read does not go on with it. -/
theorem ShowsAt.ends_expression (h : m.ShowsAt source i) (htables : m.lookups.InStep)
    (hperform : m.perform (.expression power) = some (.ok e, m')) :
    m'.peek.kind = .semicolon ∨ m'.peekBindingPower ≤ power := by
  have hmirrors := h.perform htables (.expression power)
  rw [hperform] at hmirrors
  generalize hreply : Request.step m.lookups.grammar
    (m.lookups.grammar.expression (maxNesting - m.depth)) (.expression power)
      (source.remaining.drop i) = reply at hmirrors
  cases hmirrors with
  | ok hmoves =>
    have hends := Grammar.continuesAt?_eq_none_iff.1 (Grammar.ends_expression hreply)
    rw [Lexer.peek_drop, ← hmoves.showsAt.peek, htables.bindingPower_grammar] at hends
    rwa [peekBindingPower, hmoves.lookups]

/-- **Expressions are greedy, whatever has been done with a machine.**  In whatever way it has
been moved, had its tables changed and been asked to read, the kinds of token that have a power
are those that have a rule to continue expressions, so that a token that binds tighter than
something else has one; reading changes no tables, so that it is the same in the midst of it.
An expression that is read by some power is followed by a `;` or by a token that binds no tighter
than that.

So it is with neighbours, by the grammar of the language.  The statements of a program and those
of a block are read round by round; where one round reads a statement that does not end in a `;`
and the next one reads a statement, too, this starts neither with a `(` nor with a `-`. -/
theorem greedy :
    (∀ (source : Lexer) (commands : List Command) (m : Machine),
      (ofLexer source).executeAll commands = some m →
        (∀ kind, (m.lookups.power kind).isSome = (m.lookups.infixRule kind).isSome) ∧
        (∀ (power : BindingPower) (kind : Kind), power < m.lookups.bindingPower kind →
          (m.lookups.infixRule kind).isSome = true) ∧
        (∀ {α : Type} (request : Request α) (result : Except Diagnostic α) (m' : Machine),
          m.perform request = some (result, m') → m'.lookups = m.lookups) ∧
        ∀ (power : BindingPower) (e : Expr) (m' : Machine),
          m.perform (.expression power) = some (.ok e, m') →
            m'.peek.kind = .semicolon ∨ m'.peekBindingPower ≤ power) ∧
    (∀ stmt : Step Stmt, Grammar.programStatements stmt = collect (Grammar.programRound stmt) ∧
      Rule.blockStatements stmt = collect (Rule.blockRound stmt)) ∧
    ∀ (room : Nat) (round : Step Round),
      round ∈ Grammar.statementRounds (Grammar.standard.statement room) →
      ∀ (ts mid out : Tokens) (s s' : Stmt) (log log' : List Diagnostic),
        round ts = .ok (.read s) mid log → round mid = .ok (.read s') out log' →
          ∃ last, Grammar.standard.statement room ts = .ok s last log ∧ mid = last.tail ∧
            s'.token = mid.current ∧ (last.current.kind ≠ .semicolon →
              s'.token.kind ≠ .lparen ∧ s'.token.kind ≠ .minus) := by
  refine ⟨?_, ?_, ?_⟩
  · intro source commands m hexecute
    obtain ⟨htables, -, i, -, hat⟩ :=
      (showsAt_ofLexer source).executeAll (inStep_ofLexer source) hexecute
    refine ⟨htables, fun power kind => htables.isSome_infixRule, ?_, ?_⟩
    · intro α request result m' hperform
      have hmirrors := hat.perform htables request
      rw [hperform] at hmirrors
      obtain ⟨j, log, hmoves⟩ := hmirrors.exists_moves
      exact hmoves.lookups
    · intro power e m' hperform
      exact hat.ends_expression htables hperform
  · intro stmt
    exact ⟨Grammar.programStatements_eq_collect stmt, Rule.blockStatements_eq_collect stmt⟩
  · intro room round hround ts mid out s s' log log' h h'
    obtain ⟨last, hstmt, hmid, hfirst, hlowest⟩ := Grammar.bindingPower_of_neighbours hround h h'
    refine ⟨last, hstmt, hmid, hfirst, ?_⟩
    intro hopen
    have hpower := hlowest hopen
    constructor
    · intro hkind
      rw [hkind] at hpower
      cases hpower
    · intro hkind
      rw [hkind] at hpower
      cases hpower

/-- An operator that is registered once more with the least of all powers ends the expressions in
front of it; and of two names that stand side by side the second starts a statement. -/
theorem greedy_lowered :
    (∃ m e m', (ofLexer (Lexer.ofString "a + b")).executeAll
        [.register (.continuation .plus .lowest .infixOp)] = some m ∧
      m.perform (.expression .lowest) = some (.ok e, m') ∧ m'.peek.kind = .plus ∧
      (m'.peek.kind = .semicolon ∨ m'.peekBindingPower ≤ .lowest)) ∧
    ∃ s s' : Stmt,
      Grammar.programRound (Grammar.standard.statement 1) [⟨.ident, "a"⟩, ⟨.ident, "b"⟩] =
        .ok (.read s) [⟨.ident, "b"⟩] [] ∧
      Grammar.programRound (Grammar.standard.statement 1) [⟨.ident, "b"⟩] = .ok (.read s') [] [] ∧
      s'.token.kind ≠ .lparen ∧ s'.token.kind ≠ .minus := by
  constructor
  · let m := (ofLexer (Lexer.ofString "a + b")).register (.continuation .plus .lowest .infixOp)
    have hm : (ofLexer (Lexer.ofString "a + b")).executeAll
        [.register (.continuation .plus .lowest .infixOp)] = some m := rfl
    have hrun : (m.perform (.expression .lowest)).map (fun r => (r.1, r.2.peek.kind)) =
        some (.ok (.identifier (.ofToken ⟨.ident, "a"⟩)), .plus) := by decide +kernel
    obtain ⟨⟨result, m'⟩, hperform, heq⟩ := Option.map_eq_some_iff.1 hrun
    obtain ⟨rfl, hpeek⟩ := Prod.mk.injEq .. ▸ heq
    exact ⟨m, _, m', hm, hperform, hpeek, (greedy.1 _ _ m hm).2.2.2 .lowest _ m' hperform⟩
  · let a : Token := ⟨.ident, "a"⟩
    let b : Token := ⟨.ident, "b"⟩
    have hstmt : Grammar.standard.statement 1 [a, b] =
        .ok (.expression a (.identifier (.ofToken a))) [a, b] [] := by decide +kernel
    have hstmt' : Grammar.standard.statement 1 [b] =
        .ok (.expression b (.identifier (.ofToken b))) [b] [] := by decide +kernel
    have h := Grammar.programRound_of_ok (by decide) hstmt
    have h' := Grammar.programRound_of_ok (by decide) hstmt'
    obtain ⟨last, hlast, -, -, hopen⟩ := greedy.2.2 1 _ List.mem_cons_self _ _ _ _ _ _ _ h h'
    rw [hstmt] at hlast
    cases hlast
    exact ⟨_, _, h, h', hopen (by decide)⟩

end Machine

end Script
