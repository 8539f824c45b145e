import Script.Proofs.Boundary
import Script.Proofs.Recording

/-!
# Attempts at statements

A program is read by one attempt at a statement after the other.  An attempt reads a statement,
and the next one starts behind it; or it is given up over a diagnostic, and the next one starts
where recovery has stopped.  What a program consists of, and what is wrong with it, is what its
attempts have read and what they have found wrong.

## Main definitions

* `Attempt` — an attempt at a statement of a program, with its `Attempt.diagnostics`.
* `Attempts` — the attempts by which the statements of a program are read.

## Main results

* `Attempts.collect_eq` — the loop over the statements of a program makes these attempts.
* `exists_attempts_of_parse` — so a source is parsed as what its attempts come to.
* `Attempts.obeys` — each attempt obeys the laws that the grammar upholds.
-/

namespace Script

open Tokens Step

/-- An attempt at a statement of a program. -/
structure Attempt where
  /-- What is left when it starts, from the first token of the statement on. -/
  start : Tokens
  /-- What is left when it ends, from the current token on. -/
  stop : Tokens
  /-- What has been recorded inside the statement. -/
  log : List Diagnostic
  /-- The statement, or the diagnostic over which it is given up. -/
  result : Except Diagnostic Stmt

namespace Attempt

/-- The diagnostic over which the statement is given up, if it is. -/
def error? (a : Attempt) : Option Diagnostic :=
  match a.result with
  | .ok _ => none
  | .error diagnostic => some diagnostic

/-- The statement, if it is read. -/
def statements (a : Attempt) : List Stmt :=
  match a.result with
  | .ok statement => [statement]
  | .error _ => []

/-- All diagnostics of the attempt, the one over which it is given up last. -/
def diagnostics (a : Attempt) : List Diagnostic := a.log ++ a.error?.toList

/-- What is left for the next attempt. -/
def next (a : Attempt) : Tokens :=
  match a.result with
  | .ok _ => a.stop.tail
  | .error _ => a.stop.recover false

/-- What reading the statement comes to. -/
def reply (a : Attempt) : Reply Stmt :=
  match a.result with
  | .ok statement => .ok statement a.stop a.log
  | .error diagnostic => .fail diagnostic a.stop a.log

/-- What the round of the loop comes to. -/
def round (a : Attempt) : Round :=
  match a.result with
  | .ok statement => .read statement
  | .error _ => .skipped

variable {a : Attempt} {stmt : Step Stmt} {ts : Tokens}

theorem goesOn_round (a : Attempt) : a.round.GoesOn := by
  unfold round
  split
  · exact Round.goesOn_read _
  · exact Round.goesOn_skipped

theorem cons_round (a : Attempt) (ss : List Stmt) : a.round.cons ss = a.statements ++ ss := by
  unfold round statements
  split <;> rfl

/-- Every attempt gives a statement or a diagnostic. -/
theorem length_pos (a : Attempt) : 0 < a.statements.length + a.diagnostics.length := by
  unfold statements diagnostics error?
  split <;> simp

/-- A step that comes to an end makes an attempt wherever it starts. -/
theorem exists_of_settles (hstmt : stmt.Settles) (ts : Tokens) :
    ∃ a : Attempt, a.start = ts ∧ stmt ts = a.reply := by
  cases hreply : stmt ts with
  | ok statement rest log => exact ⟨⟨ts, rest, log, .ok statement⟩, rfl, rfl⟩
  | fail diagnostic rest log => exact ⟨⟨ts, rest, log, .error diagnostic⟩, rfl, rfl⟩
  | diverges => exact absurd hreply (hstmt ts).ne_diverges

/-- An attempt is a round of the loop over the statements. -/
theorem programRound_start (heof : a.start.current.kind ≠ .eof) (hreply : stmt a.start = a.reply) :
    Grammar.programRound stmt a.start = .ok a.round a.next a.diagnostics := by
  obtain ⟨ts, rest, log, result⟩ := a
  cases result with
  | ok statement =>
    rw [Grammar.programRound_of_ok heof hreply]
    simp [round, next, diagnostics, error?]
  | error diagnostic =>
    rw [Grammar.programRound_of_fail heof hreply]
    simp [round, next, diagnostics, error?]

/-- An attempt ends where it starts or further on. -/
theorem stop_suffix (hstmt : stmt.Settles) (hreply : stmt a.start = a.reply) :
    a.stop <:+ a.start := by
  obtain ⟨ts, rest, log, result⟩ := a
  cases result with
  | ok statement => exact hstmt.suffix_of_ok hreply
  | error diagnostic => exact hstmt.suffix_of_fail hreply

/-- The next attempt starts further on. -/
theorem next_suffix (hstmt : stmt.Settles) (heof : a.start.current.kind ≠ .eof)
    (hreply : stmt a.start = a.reply) : a.next <:+ a.start ∧ a.next.length < a.start.length := by
  have hround := programRound_start heof hreply
  have hprogress := Grammar.progresses_programRound hstmt
  exact ⟨hprogress.settles.suffix_of_ok hround, hprogress.length_lt hround a.goesOn_round⟩

end Attempt

/-- The attempts by which the statements are read that are left, up to the end of the source. -/
inductive Attempts (stmt : Step Stmt) : Tokens → List Attempt → Prop where
  /-- At the end of the source there are none. -/
  | done {ts : Tokens} (heof : ts.current.kind = .eof) : Attempts stmt ts []
  /-- One attempt is made, and then the others. -/
  | cons {a : Attempt} {as : List Attempt} (heof : a.start.current.kind ≠ .eof)
      (hreply : stmt a.start = a.reply) (hmore : Attempts stmt a.next as) :
      Attempts stmt a.start (a :: as)

namespace Attempts

variable {stmt : Step Stmt} {ts : Tokens} {as : List Attempt}

theorem exists_of_settles (hstmt : stmt.Settles) (ts : Tokens) : ∃ as, Attempts stmt ts as := by
  generalize hn : ts.length = n
  induction n using Nat.strong_induction_on generalizing ts with
  | h n ih =>
    by_cases heof : ts.current.kind = .eof
    · exact ⟨[], .done heof⟩
    · obtain ⟨a, rfl, hreply⟩ := Attempt.exists_of_settles hstmt ts
      have hlt := (Attempt.next_suffix hstmt heof hreply).2
      obtain ⟨as, hmore⟩ := ih a.next.length (hn ▸ hlt) a.next rfl
      exact ⟨a :: as, .cons heof hreply hmore⟩

/-- The loop over the statements makes these attempts, and what they have read and recorded is
what it comes to. -/
theorem collect_eq (h : Attempts stmt ts as) (hstmt : stmt.Settles) {n : Nat} (hn : ts.length < n) :
    ∃ rest, collect (Grammar.programRound stmt) n ts =
      .ok (as.flatMap Attempt.statements) rest (as.flatMap Attempt.diagnostics) := by
  induction h generalizing n with
  | @done ts heof =>
    obtain ⟨n, rfl⟩ := Nat.exists_eq_add_one_of_ne_zero (Nat.ne_zero_of_lt hn)
    refine ⟨ts, ?_⟩
    rw [collect, bind_of_ok (Grammar.programRound_of_eof heof)]
    rfl
  | @cons a as heof hreply hmore ih =>
    obtain ⟨n, rfl⟩ := Nat.exists_eq_add_one_of_ne_zero (Nat.ne_zero_of_lt hn)
    have hlt := (Attempt.next_suffix hstmt heof hreply).2
    obtain ⟨rest, hrest⟩ := ih (Nat.lt_of_lt_of_le hlt (Nat.le_of_lt_succ hn))
    refine ⟨rest, ?_⟩
    rw [List.flatMap_cons, List.flatMap_cons, ← Attempt.cons_round]
    exact collect_eq_ok_of_goesOn (Attempt.programRound_start heof hreply) a.goesOn_round hrest

/-- Each of the attempts starts at a token of what is left, and is made there. -/
theorem made (h : Attempts stmt ts as) (hstmt : stmt.Settles) :
    ∀ a ∈ as, a.start <:+ ts ∧ a.start.current.kind ≠ .eof ∧ stmt a.start = a.reply := by
  induction h with
  | done => exact List.forall_mem_nil _
  | @cons a as heof hreply hmore ih =>
    have hnext := (Attempt.next_suffix hstmt heof hreply).1
    refine List.forall_mem_cons.2 ⟨⟨List.suffix_refl a.start, heof, hreply⟩, fun b hb => ?_⟩
    obtain ⟨hsuffix, hmade⟩ := ih b hb
    exact ⟨hsuffix.trans hnext, hmade⟩

end Attempts

section

variable {g : Grammar} {law : Law} {room : Nat} {ts : Tokens} {as : List Attempt}

/-- What is recorded in an attempt, and the diagnostic that it ends with, is allowed by the laws
that the grammar upholds. -/
theorem Attempt.obeys {a : Attempt} (h : g.Upholds law)
    (hreply : g.statement room a.start = a.reply) : law a.start a.stop a.log a.error? := by
  have hobeys := h.obeys_statement room a.start
  rw [hreply] at hobeys
  obtain ⟨ts, rest, log, result⟩ := a
  cases result with
  | ok statement => exact hobeys.2
  | error diagnostic => exact hobeys.2

/-- So it is in each of the attempts, wherever they start. -/
theorem Attempts.obeys (has : Attempts (g.statement room) ts as) (hg : g.WellFounded)
    (h : g.Upholds law) : ∀ a ∈ as, a.start <:+ ts ∧ law a.start a.stop a.log a.error? := by
  intro a ha
  obtain ⟨hstart, -, hreply⟩ := has.made (Grammar.settles_statement hg room) a ha
  exact ⟨hstart, Attempt.obeys h hreply⟩

end

/-- A loop that comes to an end has made attempts, whether all statements do so or not. -/
theorem exists_attempts_of_collect {stmt : Step Stmt} {n : Nat} {ts rest : Tokens} {ss : List Stmt}
    {log : List Diagnostic} (h : collect (Grammar.programRound stmt) n ts = .ok ss rest log) :
    ∃ as, Attempts stmt ts as ∧ ss = as.flatMap Attempt.statements ∧
      log = as.flatMap Attempt.diagnostics := by
  induction n generalizing ts ss log with
  | zero => cases h
  | succ n ih =>
    by_cases heof : ts.current.kind = .eof
    · rw [collect, bind_of_ok (Grammar.programRound_of_eof heof)] at h
      cases h
      exact ⟨[], .done heof, rfl, rfl⟩
    have hmore {a : Attempt} (hstart : a.start = ts) (hreply : stmt ts = a.reply) :
        ∃ as, Attempts stmt ts as ∧ ss = as.flatMap Attempt.statements ∧
          log = as.flatMap Attempt.diagnostics := by
      subst hstart
      have hround := Attempt.programRound_start heof hreply
      obtain ⟨more, log', hrest, hss, hlog⟩ :=
        exists_of_collect_of_goesOn hround a.goesOn_round h
      obtain ⟨as, has, rfl, rfl⟩ := ih hrest
      rw [Attempt.cons_round] at hss
      exact ⟨a :: as, .cons heof hreply has, hss, hlog⟩
    cases hreply : stmt ts with
    | ok s mid log' => exact hmore (a := ⟨ts, mid, log', .ok s⟩) rfl hreply
    | fail d mid log' => exact hmore (a := ⟨ts, mid, log', .error d⟩) rfl hreply
    | diverges =>
      rw [collect, bind_of_diverges (Grammar.programRound_of_diverges heof hreply)] at h
      cases h

/-- A parser that reads a program makes attempts, and adds their diagnostics to its own. -/
theorem Parser.exists_attempts_of_parseProgram {p q : Parser} {program : Program}
    (h : p.parseProgram = some (program, q)) :
    ∃ as, Attempts (p.grammar.statement p.room) p.tokens as ∧
      program.statements = as.flatMap Attempt.statements ∧
      q.diagnostics = p.diagnostics ++ as.flatMap Attempt.diagnostics := by
  cases hreply : Grammar.programStatements (p.grammar.statement p.room) (p.tokens.length + 1)
      p.tokens with
  | ok ss rest log =>
    rw [parseProgram_of_statements hreply] at h
    cases h
    rw [Grammar.programStatements_eq_collect] at hreply
    obtain ⟨as, has, rfl, rfl⟩ := exists_attempts_of_collect hreply
    exact ⟨as, has, rfl, rfl⟩
  | fail d rest log => exact absurd hreply (Grammar.unfailing_programStatements _ _ _ _ _ _)
  | diverges =>
    have hbounded : Step.bounded (Grammar.programStatements (p.grammar.statement p.room))
      p.tokens = .diverges := hreply
    rw [parseProgram, run, Grammar.program, bind_of_diverges hbounded] at h
    cases h

/-- **A source is parsed as what its attempts come to.** -/
theorem exists_attempts_of_parse (source : String) :
    ∃ as, Attempts (Grammar.standard.statement maxNesting) (Lexer.tokens source.toList) as ∧
      parse source = (⟨as.flatMap Attempt.statements⟩, as.flatMap Attempt.diagnostics) := by
  have hstmt := Grammar.settles_statement Grammar.wellFounded_standard maxNesting
  obtain ⟨as, has⟩ := Attempts.exists_of_settles hstmt (Lexer.tokens source.toList)
  obtain ⟨rest, hcollect⟩ := has.collect_eq hstmt (Nat.lt_succ_self _)
  exact ⟨as, has, parse_of_collect (Nat.lt_succ_self _) hcollect⟩

end Script
