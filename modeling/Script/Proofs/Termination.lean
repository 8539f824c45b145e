import Script.Proofs.Action
import Script.Proofs.Program
import Script.Proofs.Registration
import Script.Proofs.Rounds

/-!
# Termination

Whatever rules are registered, short of those that lead back to where they were looked up
or past the end of the source, every source is read to its end.  Each round of a loop takes
a token, and expressions stand inside each other to the depth only that the counter allows.
Reading the program once more finds nothing and changes nothing.

## Main definitions

* `Parser.EndsWithin` — one who counts comes to an end in a number of levels.

## Main results

* `Parser.endsWithin` — the depth leaves room for as many levels as are needed.
* `Parser.parseProgram_halts` — **reading comes to an end**, at the end of the source.
-/

namespace Script

namespace Grammar

/-- A loop over the statements of a program is over at the end of the source. -/
theorem current_of_programRound_finished {stmt : Step Stmt} {ts rest : Tokens}
    {log : List Diagnostic} (h : programRound stmt ts = .ok .finished rest log) :
    rest.current.kind = .eof := by
  by_cases heof : ts.current.kind = .eof
  · rw [programRound_of_eof heof] at h
    cases h
    exact heof
  · cases hstmt : stmt ts with
    | ok s us log' =>
      rw [programRound_of_ok heof hstmt] at h
      cases h
    | fail diagnostic us log' =>
      rw [programRound_of_fail heof hstmt] at h
      cases h
    | diverges =>
      rw [programRound_of_diverges heof hstmt] at h
      cases h

theorem current_of_collect_programRound {stmt : Step Stmt} {rounds : Nat} {ts rest : Tokens}
    {ss : List Stmt} {log : List Diagnostic}
    (h : Step.collect (programRound stmt) rounds ts = .ok ss rest log) :
    rest.current.kind = .eof := by
  induction rounds generalizing ts ss log with
  | zero => cases h
  | succ rounds ih =>
    rw [Step.collect] at h
    obtain ⟨round, us, log₁, log₂, hround, hmore, -⟩ := Step.exists_of_bind_eq_ok h
    cases round with
    | finished =>
      cases hmore
      exact current_of_programRound_finished hround
    | read s =>
      obtain ⟨ss', us', log₃, log₄, hss, hpure, -⟩ := Step.exists_of_bind_eq_ok hmore
      cases hpure
      exact ih hss
    | skipped => exact ih hmore

end Grammar

namespace Parser

variable {α : Type}

/-! ### Levels -/

/-- One who counts comes to an end in a number of levels.  What lies deeper would run for ever,
so that it is never come to: the readings of expressions stand inside each other at most as often
as there are levels. -/
structure EndsWithin (p : Parser) (levels : Nat) : Prop where
  /-- Expressions are read to their ends, -/
  expression : ∀ power, p.act (Counting.expression levels power) = p.parseExpression power ∧
    (p.parseExpression power).isSome = true
  /-- and so are programs. -/
  program : p.act (Counting.program levels) = p.perform .program ∧
    (p.perform .program).isSome = true

/-- A step that settles comes to an end. -/
theorem isSome_run (p : Parser) {step : Step α} (h : step.Settles) :
    (p.run step).isSome = true := by
  unfold run
  cases hreply : step p.tokens with
  | ok value rest log => rfl
  | fail diagnostic rest log => rfl
  | diverges => exact absurd hreply (h p.tokens).ne_diverges

/-- There are levels enough if there are more than the depth leaves room for: the last one is
that in which the limit is found. -/
theorem endsWithin {p : Parser} (hp : p.grammar.WellFounded) {levels : Nat}
    (hlevels : maxNesting - p.depth < levels) : p.EndsWithin levels := by
  have hcounts := Action.simulates p.grammar
  constructor
  · intro power
    exact ⟨hcounts.expression hlevels power p rfl rfl,
      p.isSome_run (Grammar.settles_expression hp p.room power)⟩
  · rw [perform_program]
    exact ⟨hcounts.program hlevels p rfl rfl, p.isSome_run (Grammar.settles_program hp p.room)⟩

/-! ### The end of the source -/

/-- At the end of the source the program is empty, and the parser stays as it is. -/
theorem parseProgram_of_nil {p : Parser} (h : p.tokens = []) :
    p.parseProgram = some (⟨[]⟩, p) := by
  have hloop : Grammar.programStatements (p.grammar.statement p.room) (p.tokens.length + 1)
      p.tokens = .ok [] [] [] := by
    rw [h]
    exact Grammar.programStatements_nil _
  rw [parseProgram_of_statements hloop, List.append_nil, ← h]

/-- A parser whose tokens are tokens of a source reads them all. -/
theorem exists_parseProgram {p : Parser} (hp : p.grammar.WellFounded)
    (htokens : ∀ t ∈ p.tokens, t.kind ≠ .eof) :
    ∃ program q, p.parseProgram = some (program, q) ∧ q.tokens = [] := by
  have hsettles := Step.settles_bounded
    (Grammar.leaves_programStatements (Grammar.settles_statement hp p.room))
  have hunfailing : (Step.bounded (Grammar.programStatements
      (p.grammar.statement p.room))).Unfailing :=
    fun ts => Grammar.unfailing_programStatements _ (ts.length + 1) ts
  obtain ⟨ss, rest, log, hok, hrest⟩ := hsettles.eq_ok hunfailing p.tokens
  refine ⟨⟨ss⟩, _, parseProgram_of_statements hok, ?_⟩
  rw [Step.bounded_apply, Grammar.programStatements_eq_collect] at hok
  have heof := Grammar.current_of_collect_programRound hok
  -- none of the tokens is the end, so that none of them can be left
  cases rest with
  | nil => rfl
  | cons t rest => exact absurd heof (htokens t (hrest.subset List.mem_cons_self))

/-- **Reading comes to an end.**  Whatever finite registrations are made, every round of
every loop takes a token.  Wherever a parser with these tables stands, one who counts comes to an
end within the levels that the depth leaves room for and the one in which the limit is found.
The program of a source is read up to the end of the source, and reading once more finds an empty
program and leaves the parser as it is. -/
theorem parseProgram_halts {changes : List Registration}
    (hchanges : ∀ change ∈ changes, change.IsFinite) (source : String) :
    let p := (ofString source).registerAll changes
    (∀ t ∈ p.tokens, t.kind ≠ .eof) ∧
    (∀ room, p.grammar.LoopsProgress room) ∧
    (∀ (q : Parser) (levels : Nat), q.grammar = p.grammar → maxNesting - q.depth < levels →
      q.EndsWithin levels) ∧
    ∃ program q, p.parseProgram = some (program, q) ∧ q.current = Token.eof ∧
      q.peek = Token.eof ∧ q.parseProgram = some (⟨[]⟩, q) := by
  intro p
  have hp : p.grammar.WellFounded :=
    wellFounded_registerAll (p := ofString source) Grammar.wellFounded_standard hchanges
  have htokens : p.tokens = Lexer.tokens source.toList :=
    congrArg Parser.tokens (registerAll_eq (ofString source) changes)
  have heof : ∀ t ∈ p.tokens, t.kind ≠ .eof := by
    intro t ht
    rw [htokens] at ht
    exact (Lexer.spelled_of_mem_tokens ht).kind_ne_eof
  refine ⟨heof, Grammar.loopsProgress hp, ?_, ?_⟩
  · intro q levels hq hlevels
    exact endsWithin (hq ▸ hp) hlevels
  · obtain ⟨program, q, hq, hend⟩ := exists_parseProgram hp heof
    refine ⟨program, q, hq, ?_, ?_, parseProgram_of_nil hend⟩
    · rw [current, hend]
      rfl
    · rw [peek, hend]
      rfl

/-- Expressions that start at the end of the source, calls at a `;`, and names that start
bindings. -/
def unusualChanges : List Registration :=
  [.prefixRule .eof .prefixOp, .continuation .semicolon .call .call,
    .statementRule .ident .letBinding]

/-- They do not keep the operand that is missing at the end of the source from being given up. -/
theorem parseProgram_halts_unusual :
    (∀ change ∈ unusualChanges, change.IsFinite) ∧
    let p := (ofString "- x; -").registerAll unusualChanges
    (∀ t ∈ p.tokens, t.kind ≠ .eof) ∧
    (∀ room, p.grammar.LoopsProgress room) ∧
    (∀ (q : Parser) (levels : Nat), q.grammar = p.grammar → maxNesting - q.depth < levels →
      q.EndsWithin levels) ∧
    ∃ program q, p.parseProgram = some (program, q) ∧ q.current = Token.eof ∧
      q.peek = Token.eof ∧ q.parseProgram = some (⟨[]⟩, q) := by
  have hchanges : ∀ change ∈ unusualChanges, change.IsFinite := by
    simp [unusualChanges, Registration.IsFinite]
  exact ⟨hchanges, parseProgram_halts hchanges "- x; -"⟩

end Parser

end Script
