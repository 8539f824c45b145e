import Script.Proofs.Attempts
import Script.Proofs.Parallel.Reading

/-!
# The limit of nesting

A block gives up a statement that cannot be read and goes on, but it hands on a diagnostic over
too deep a nesting as it is.  So such a diagnostic is never recorded on the way: from the place
where there is no room for an expression it passes through all rules and blocks around it, and
the statement of the program is given up over it.

To tell where the limit is hit, a parser may announce it: wherever it finds no room, it records
the diagnostic on the spot, before it is handed on.  Such a parser does what one does that keeps
silent, but that it has recorded one diagnostic more, and this as the last one, if it ends with
too deep a nesting.

## Main definitions

* `Law.unnested` — too deep a nesting is not recorded.
* `Grammar.announcing`, `Parser.announce` — reading that records every hit of the limit.
* `Attempt.hitsLimit` — the limit is hit in an attempt at a statement of the program.

## Main results

* `Grammar.upholds_unnested` — every grammar upholds the law.
* `Grammar.parallel_announced` — announcing is kept by everything that the rules are made of.
* `Parser.perform_announced` — what a parser ends with is the only hit of the limit.
* `Attempts.countP_nesting` — every attempt that hits the limit reports it once.
* `Parser.nesting_reported_once` — **so it is in every run.**
-/

namespace Script

open Step

/-! ### Nothing is recorded over the limit -/

/-- Too deep a nesting is not recorded. -/
def Law.unnested : Law := fun _ _ log _ => ∀ d ∈ log, d.fault.isNesting = false

theorem Law.allowsSkip_unnested (ts : Tokens) : Law.unnested.AllowsSkip ts := by
  intro us rest log log' diagnostic _ _ _ hlog _ hlog' hnesting
  simp only [Law.unnested, List.forall_mem_append, List.forall_mem_singleton] at hlog hlog' ⊢
  exact ⟨hlog, hlog', hnesting⟩

/-- Every grammar upholds it: blocks do not record too deep a nesting, and nothing else is
recorded. -/
theorem Grammar.upholds_unnested (g : Grammar) : g.Upholds Law.unnested where
  stay _ := List.forall_mem_nil _
  advance _ := List.forall_mem_nil _
  trans _ _ hlog hlog' := List.forall_mem_append.2 ⟨hlog, hlog'⟩
  found _ := List.forall_mem_nil _
  skip _ := Law.allowsSkip_unnested _

/-- So it is for everything that a parser can be asked to read, but for a program. -/
theorem Request.obeys_unnested {α : Type} {request : Request α} (hpart : request.isPart = true)
    (g : Grammar) (room : Nat) : (request.step g (g.expression room)).Obeys Law.unnested := by
  have h := g.upholds_unnested
  have hexpr := h.obeys_expression room
  have hstmt := h.obeys_statement room
  cases request with
  | expression power => exact hexpr power
  | prefixRule rule =>
    intro ts
    exact h.obeys_prefixRule hexpr hstmt (fun _ _ => List.forall_mem_nil _)
      (fun _ => Law.allowsSkip_unnested ts)
  | continuation left power rule => exact h.obeys_infixRule hexpr left power rule
  | statement => exact hstmt
  | statementRule rule =>
    cases rule with
    | lookup => exact hstmt
    | letBinding => exact h.obeys_statementRule hexpr .letBinding
    | returnValue => exact h.obeys_statementRule hexpr .returnValue
    | expression => exact h.obeys_statementRule hexpr .expression
  | recovery inBlock =>
    intro ts
    exact ⟨ts.recover_suffix inBlock, List.forall_mem_nil _⟩
  | program => cases hpart

/-! ### Announcing -/

namespace Reply

variable {α : Type}

/-- What has been recorded. -/
def log : Reply α → List Diagnostic
  | ok _ _ log => log
  | fail _ _ log => log
  | diverges => []

/-- The reply in which a diagnostic over too deep a nesting has been recorded as well. -/
def announced : Reply α → Reply α
  | fail diagnostic rest log =>
    fail diagnostic rest (if diagnostic.fault.isNesting then log ++ [diagnostic] else log)
  | reply => reply

@[simp] theorem announced_ok (value : α) (rest : Tokens) (log : List Diagnostic) :
    (ok value rest log).announced = ok value rest log := rfl

@[simp] theorem announced_diverges : (diverges : Reply α).announced = diverges := rfl

theorem announced_of_isNesting {diagnostic : Diagnostic}
    (h : diagnostic.fault.isNesting = true) (rest : Tokens) (log : List Diagnostic) :
    (fail diagnostic rest log : Reply α).announced =
      fail diagnostic rest (log ++ [diagnostic]) := by
  simp [announced, h]

theorem announced_of_not_isNesting {diagnostic : Diagnostic}
    (h : diagnostic.fault.isNesting = false) (rest : Tokens) (log : List Diagnostic) :
    (fail diagnostic rest log : Reply α).announced = fail diagnostic rest log := by
  simp [announced, h]

/-- What has been recorded before makes no difference. -/
theorem announced_after (log : List Diagnostic) (reply : Reply α) :
    (reply.after log).announced = reply.announced.after log := by
  cases reply with
  | ok value rest log' => rfl
  | fail diagnostic rest log' =>
    cases h : diagnostic.fault.isNesting <;> simp [announced, h]
  | diverges => rfl

end Reply

namespace Grammar

/-- Where there is no room this is recorded before it is handed on. -/
def announcedLimit : ExprReader := fun _ => do
  let token ← Step.current
  Step.record ⟨.nestingTooDeep maxNesting, token⟩
  Step.reject (.nestingTooDeep maxNesting)

/-- Reads an expression and records every hit of the limit. -/
def announcing (g : Grammar) : Nat → ExprReader := g.expressionWithin announcedLimit

section

variable {α : Type} {stmt stmt' : Step Stmt} {more more' : Stmt → Step α}
  {skipped skipped' : Step α} {ts rest : Tokens} {diagnostic : Diagnostic} {log : List Diagnostic}

theorem rescue_of_ok {s : Stmt} (h : stmt ts = .ok s rest log) :
    Rule.rescue stmt more skipped ts = (more s rest).after log := by
  rw [Rule.rescue, attempt_bind_of_ok h]

/-- Too deep a nesting is on its way out. -/
theorem rescue_of_nesting (h : stmt ts = .fail diagnostic rest log)
    (hnesting : diagnostic.fault.isNesting = true) :
    Rule.rescue stmt more skipped ts = .fail diagnostic rest log := by
  rw [Rule.rescue, attempt_bind_of_fail h]
  dsimp only
  rw [if_pos hnesting]
  exact congrArg (Reply.fail diagnostic rest) (List.append_nil log)

theorem rescue_of_fail (h : stmt ts = .fail diagnostic rest log)
    (hnesting : diagnostic.fault.isNesting = false) :
    Rule.rescue stmt more skipped ts =
      (skipped (rest.recover true)).after (log ++ [diagnostic]) := by
  have hnot : ¬diagnostic.fault.isNesting = true := by rw [hnesting]; decide
  rw [Rule.rescue, attempt_bind_of_fail h]
  dsimp only
  rw [if_neg hnot, bind_of_ok (record_apply diagnostic rest),
    bind_of_ok (synchronize_apply true rest), Reply.after_nil, Reply.after_after]

theorem rescue_of_diverges (h : stmt ts = .diverges) :
    Rule.rescue stmt more skipped ts = .diverges := by
  have hattempt : attempt stmt ts = .diverges := by rw [attempt_apply, h]
  rw [Rule.rescue, bind_of_diverges hattempt]

/-- A block does not record what is announced a second time, nor anything behind it. -/
theorem announced_rescue (hstmt : ∀ ts, stmt' ts = (stmt ts).announced)
    (hmore : ∀ s ts, more' s ts = (more s ts).announced)
    (hskipped : ∀ ts, skipped' ts = (skipped ts).announced) (ts : Tokens) :
    Rule.rescue stmt' more' skipped' ts = (Rule.rescue stmt more skipped ts).announced := by
  have hown := hstmt ts
  cases hreply : stmt ts with
  | ok s rest log =>
    rw [hreply, Reply.announced_ok] at hown
    rw [rescue_of_ok hreply, rescue_of_ok hown, hmore, Reply.announced_after]
  | fail diagnostic rest log =>
    cases hnesting : diagnostic.fault.isNesting with
    | true =>
      -- it ends the block as well, behind what has been announced
      rw [hreply, Reply.announced_of_isNesting hnesting] at hown
      rw [rescue_of_nesting hreply hnesting, rescue_of_nesting hown hnesting,
        Reply.announced_of_isNesting hnesting]
    | false =>
      -- nothing has been announced yet, and the block goes on
      rw [hreply, Reply.announced_of_not_isNesting hnesting] at hown
      rw [rescue_of_fail hreply hnesting, rescue_of_fail hown hnesting, hskipped,
        Reply.announced_after]
  | diverges =>
    rw [hreply, Reply.announced_diverges] at hown
    rw [rescue_of_diverges hreply, rescue_of_diverges hown, Reply.announced_diverges]

end

/-- **Announcing is kept by everything that the rules are made of.** -/
theorem parallel_announced (g : Grammar) :
    g.Parallel g fun _ step step' => ∀ ts, step' ts = (step ts).announced where
  pure _ _ := rfl
  advance _ := rfl
  expect kind ts := by
    show expect kind ts = (expect kind ts).announced
    rw [expect_apply]
    split <;> rfl
  skipSemicolon _ := rfl
  synchronize _ _ := rfl
  reject hcause ts := (Reply.announced_of_not_isNesting hcause ts []).symm
  forever _ := rfl
  bind {α β first first' second second'} hfirst hsecond ts := by
    cases hreply : first ts with
    | ok value rest log =>
      -- only where the first step is over with a value there is more to be announced
      have hown : first' ts = .ok value rest log := by rw [hfirst, hreply, Reply.announced_ok]
      rw [bind_of_ok hreply, bind_of_ok hown, hsecond, Reply.announced_after]
    | fail diagnostic rest log =>
      have hown := hfirst ts
      rw [hreply, Reply.announced] at hown
      rw [bind_of_fail hreply, bind_of_fail hown, Reply.announced]
    | diverges =>
      have hown : first' ts = .diverges := by rw [hfirst, hreply, Reply.announced_diverges]
      rw [bind_of_diverges hreply, bind_of_diverges hown, Reply.announced_diverges]
  current_bind h ts := by
    rw [current_bind, current_bind]
    exact h _ (.refl g _) ts
  peek_bind h ts := by
    rw [peek_bind, peek_bind]
    exact h _ (.refl g _) ts
  bounded h ts := h (ts.length + 1) ts
  rescue hstmt hmore hskipped := announced_rescue hstmt hmore hskipped

theorem announcing_apply (g : Grammar) (room : Nat) (power : BindingPower) (ts : Tokens) :
    g.announcing room power ts = (g.expression room power ts).announced := by
  have hlimit (power : BindingPower) (ts : Tokens) :
      announcedLimit power ts = (limit power ts).announced := rfl
  have h := g.parallel_announced.expressionWithin hlimit room power ts
  rwa [expressionWithin_limit] at h

theorem statementWith_announcing (g : Grammar) (room : Nat) (ts : Tokens) :
    g.statementWith (g.announcing room) ts = (g.statement room ts).announced :=
  g.parallel_announced.statementWith (g.announcing_apply room) ts

end Grammar

/-! ### What a parser ends with -/

/-- The diagnostic over too deep a nesting that something ends with, if it does. -/
def tooDeep? {α : Type} : Except Diagnostic α → Option Diagnostic
  | .ok _ => none
  | .error diagnostic => if diagnostic.fault.isNesting then some diagnostic else none

namespace Parser

variable {α : Type}

/-- Reads what it is asked to, and records every hit of the limit on the spot. -/
def announce (p : Parser) (request : Request α) : Option (Except Diagnostic α × Parser) :=
  p.run (request.step p.grammar (p.grammar.announcing p.room))

/-- A step that announces hits of the limit does the same, with one diagnostic more if it ends
with one over too deep a nesting. -/
theorem run_announced {p q : Parser} {step step' : Step α} {result : Except Diagnostic α}
    (hstep : ∀ ts, step' ts = (step ts).announced) (h : p.run step = some (result, q)) :
    p.run step' =
      some (result, { q with diagnostics := q.diagnostics ++ (tooDeep? result).toList }) := by
  unfold run at h ⊢
  rw [hstep]
  cases hreply : step p.tokens with
  | ok value rest log =>
    simp only [hreply] at h
    cases h
    simp [tooDeep?]
  | fail diagnostic rest log =>
    simp only [hreply] at h
    cases h
    cases hnesting : diagnostic.fault.isNesting <;> simp [Reply.announced, tooDeep?, hnesting]
  | diverges =>
    simp only [hreply] at h
    cases h

/-- **What a parser ends with is the only hit of the limit.**  It has recorded none, and one that
announces them has recorded this one alone, behind everything else. -/
theorem perform_announced {p q : Parser} {request : Request α} {result : Except Diagnostic α}
    (hpart : request.isPart = true) (h : p.perform request = some (result, q)) :
    (∃ log, q.diagnostics = p.diagnostics ++ log ∧ ∀ d ∈ log, d.fault.isNesting = false) ∧
      p.announce request =
        some (result, { q with diagnostics := q.diagnostics ++ (tooDeep? result).toList }) := by
  rw [perform_eq_run] at h
  constructor
  · have hobeys := Request.obeys_unnested hpart p.grammar p.room p.tokens
    unfold run at h
    cases hreply : request.step p.grammar (p.grammar.expression p.room) p.tokens with
    | ok value rest log =>
      simp only [hreply] at h hobeys
      cases h
      exact ⟨log, rfl, hobeys.2⟩
    | fail diagnostic rest log =>
      simp only [hreply] at h hobeys
      cases h
      exact ⟨log, rfl, hobeys.2⟩
    | diverges =>
      simp only [hreply] at h
      cases h
  · exact run_announced
      (p.grammar.parallel_announced.request (p.grammar.announcing_apply p.room) hpart) h

end Parser

/-! ### Attempts -/

namespace Attempt

variable {g : Grammar} {room : Nat} {a : Attempt}

/-- The limit is hit in the attempt: one that announces it has recorded a hit. -/
def hitsLimit (g : Grammar) (room : Nat) (a : Attempt) : Bool :=
  (g.statementWith (g.announcing room) a.start).log.any (·.fault.isNesting)

/-- What has been recorded in an attempt is not over the limit. -/
theorem log_unnested (hreply : g.statement room a.start = a.reply) :
    ∀ d ∈ a.log, d.fault.isNesting = false := Attempt.obeys g.upholds_unnested hreply

/-- The limit is hit in an attempt if it is given up over that. -/
theorem hitsLimit_iff (hreply : g.statement room a.start = a.reply) :
    a.hitsLimit g room = true ↔ ∃ d, a.result = .error d ∧ d.fault.isNesting = true := by
  have hlog := log_unnested hreply
  rw [hitsLimit, g.statementWith_announcing, hreply]
  obtain ⟨ts, rest, log, result⟩ := a
  have hnone : log.any (·.fault.isNesting) = false := List.any_eq_false.2 fun d hd => by
    simp [hlog d hd]
  cases result with
  | ok s => simp [reply, Reply.log, hnone]
  | error d =>
    cases hnesting : d.fault.isNesting <;> simp [reply, Reply.announced, Reply.log, hnesting, hnone]

/-- The diagnostics of an attempt that hits the limit say so once, and those of the others do
not. -/
theorem countP_nesting (hreply : g.statement room a.start = a.reply) :
    a.diagnostics.countP (·.fault.isNesting) = if a.hitsLimit g room then 1 else 0 := by
  have hlog : a.log.countP (·.fault.isNesting) = 0 := by
    rw [List.countP_eq_zero]
    intro d hd
    simp [log_unnested hreply d hd]
  have hiff := hitsLimit_iff hreply
  rw [diagnostics, List.countP_append, hlog, error?]
  cases hresult : a.result with
  | ok s => simp_all
  | error d => cases hnesting : d.fault.isNesting <;> simp_all

end Attempt

namespace Attempts

variable {g : Grammar} {room : Nat} {ts : Tokens} {as : List Attempt}

/-- Every attempt that hits the limit reports it once, and nothing else does. -/
theorem countP_nesting (h : Attempts (g.statement room) ts as) :
    (as.flatMap Attempt.diagnostics).countP (·.fault.isNesting) =
      as.countP (Attempt.hitsLimit g room) := by
  induction h with
  | done => rfl
  | @cons a as heof hreply hmore ih =>
    rw [List.flatMap_cons, List.countP_append, Attempt.countP_nesting hreply, ih,
      List.countP_cons, Nat.add_comm]

/-- An attempt that hits the limit gives no statement, and ends with the diagnostic about it. -/
theorem exists_of_hitsLimit (h : Attempts (g.statement room) ts as) :
    ∀ a ∈ as, a.hitsLimit g room = true → a.statements = [] ∧
      ∃ d, d.fault.isNesting = true ∧ a.diagnostics = a.log ++ [d] ∧
        ∀ e ∈ a.log, e.fault.isNesting = false := by
  induction h with
  | done => exact List.forall_mem_nil _
  | @cons a as heof hreply hmore ih =>
    refine List.forall_mem_cons.2 ⟨?_, ih⟩
    intro hhits
    obtain ⟨d, hresult, hnesting⟩ := (Attempt.hitsLimit_iff hreply).1 hhits
    refine ⟨by rw [Attempt.statements, hresult], d, hnesting, ?_, Attempt.log_unnested hreply⟩
    rw [Attempt.diagnostics, Attempt.error?, hresult]
    rfl

end Attempts

namespace Parser

/-- **Too deep a nesting is reported once for each statement of the program.**  Whatever a parser
is asked to read short of a program, it does not record that there is no room; the diagnostic
that it ends with is the only one of that kind that has come up, and nothing has been recorded
behind it.  A program is read as attempts at statements: one in which the limit is hit gives no
statement and ends with the diagnostic about it, and there are as many diagnostics of that kind
as there are such attempts. -/
theorem nesting_reported_once :
    (∀ {α : Type} (p q : Parser) (request : Request α) (result : Except Diagnostic α),
      request.isPart = true → p.perform request = some (result, q) →
        (∃ log, q.diagnostics = p.diagnostics ++ log ∧ ∀ d ∈ log, d.fault.isNesting = false) ∧
        p.announce request =
          some (result, { q with diagnostics := q.diagnostics ++ (tooDeep? result).toList })) ∧
    ∀ (p q : Parser) (program : Program), p.parseProgram = some (program, q) →
      ∃ as, Attempts (p.grammar.statement p.room) p.tokens as ∧
        program.statements = as.flatMap Attempt.statements ∧
        q.diagnostics = p.diagnostics ++ as.flatMap Attempt.diagnostics ∧
        (∀ a ∈ as, a.hitsLimit p.grammar p.room = true → a.statements = [] ∧
          ∃ d, d.fault.isNesting = true ∧ a.diagnostics = a.log ++ [d] ∧
            ∀ e ∈ a.log, e.fault.isNesting = false) ∧
        (as.flatMap Attempt.diagnostics).countP (·.fault.isNesting) =
          as.countP (Attempt.hitsLimit p.grammar p.room) := by
  constructor
  · intro α p q request result hpart h
    exact perform_announced hpart h
  · intro p q program h
    obtain ⟨as, has, hprogram, hdiagnostics⟩ := exists_attempts_of_parseProgram h
    exact ⟨as, has, hprogram, hdiagnostics, has.exists_of_hitsLimit, has.countP_nesting⟩

/-- A block in which a parenthesis is skipped before there is no room for the operand of a `!`. -/
theorem nesting_reported_once_block :
    let p : Parser := { Parser.ofString "\x7b ) ; !x; \x7d y" with depth := 62 }
    let d : Diagnostic := ⟨.noPrefixRule .rparen, ⟨.rparen, ")"⟩⟩
    let e : Diagnostic := ⟨.nestingTooDeep 64, ⟨.ident, "x"⟩⟩
    let q : Parser := { p with tokens := p.tokens.drop 4, diagnostics := [d] }
    p.perform .statement = some (.error e, q) ∧
      p.announce .statement = some (.error e, { q with diagnostics := [d, e] }) ∧
      ∃ q', p.parseProgram = some (⟨[]⟩, q') ∧
        q'.diagnostics.countP (·.fault.isNesting) = 1 ∧
        ∃ as, Attempts (p.grammar.statement p.room) p.tokens as ∧
          as.countP (Attempt.hitsLimit p.grammar p.room) = 1 := by
  intro p d e q
  have hread : Grammar.standard.statement 2 p.tokens = .fail e (p.tokens.drop 4) [d] := by
    decide +kernel
  have hperform : p.perform .statement = some (.error e, q) := by
    show p.run (Grammar.standard.statement 2) = _
    unfold run
    rw [hread]
    rfl
  have hprogram : Grammar.programStatements (Grammar.standard.statement 2) (p.tokens.length + 1)
      p.tokens = .ok [] [] [d, e, ⟨.noPrefixRule .rbrace, ⟨.rbrace, "\x7d"⟩⟩] := by
    decide +kernel
  have hparse := parseProgram_of_statements (p := p) hprogram
  refine ⟨hperform, (nesting_reported_once.1 p q _ _ rfl hperform).2, _, hparse, by decide, ?_⟩
  obtain ⟨as, has, -, hdiagnostics, -, hcount⟩ := nesting_reported_once.2 p _ _ hparse
  refine ⟨as, has, ?_⟩
  rw [← hcount, ← List.append_cancel_left hdiagnostics]
  decide

end Parser

end Script
