import Script.Proofs.Machine.Window

/-!
# Machines do what parsers do

Whatever a machine reads, its window is moved on to where a parser that has the tokens at hand
would stop, and the same is read, recorded and handed on.  This holds of every single move and
is kept by sequencing, by loops and by levels, so that it holds of all rules; only where an
expression is continued do the two tables of rules and powers have to be in step.

## Main definitions

* `Work.Follows` — work does what a step does, at given tables and a given depth.

## Main results

* `Work.Follows.bind`, `Work.follows_attempt`, `Work.follows_bounded`,
  `Work.Follows.nested` — one after the other, what work ends with, loops and levels.
* `Work.simulates` — **reading with a machine is reading by the grammar that its tables amount
  to.**
-/

namespace Script

open Machine

variable {α β : Type}

namespace Machine

theorem run_bind (m : Machine) (first : Work α) (second : α → Work β) :
    m.run (first >>= second) =
      match m.run first with
      | some (.ok value, m') => m'.run (second value)
      | some (.error diagnostic, m') => some (.error diagnostic, m')
      | none => none := by
  show (m.run first).bind _ = _
  cases m.run first with
  | none => rfl
  | some outcome =>
    obtain ⟨result, m'⟩ := outcome
    cases result <;> rfl

/-- What work ends with is handed on by the machine that it leaves. -/
theorem run_attempt (m : Machine) (work : Work α) :
    m.run (Reading.attempt work) = (m.run work).map fun outcome => (.ok outcome.1, outcome.2) := by
  show Option.bind (Option.bind (m.run work) _) _ = _
  cases m.run work with
  | none => rfl
  | some outcome =>
    obtain ⟨result, m'⟩ := outcome
    cases result <;> rfl

/-- A level is left with a diagnostic as well as with a value, if there has been room to enter
it. -/
theorem run_nested (m : Machine) (work : Work α) :
    m.run (Counting.nested work) =
      match m.enterNesting with
      | (.ok _, m') => (m'.run work).map fun outcome => (outcome.1, outcome.2.leaveNesting)
      | (.error diagnostic, m') => some (.error diagnostic, m') := by
  have henter : m.run Counting.enterNesting = some m.enterNesting := rfl
  rw [Counting.nested, run_bind, henter]
  obtain ⟨result, m'⟩ := m.enterNesting
  cases result with
  | error diagnostic => rfl
  | ok _ =>
    dsimp only
    rw [run_bind, run_attempt]
    cases m'.run work with
    | none => rfl
    | some outcome =>
      obtain ⟨result, m''⟩ := outcome
      cases result <;> rfl

end Machine

namespace Work

variable {source : Lexer} {tables : Lookups} {depth : Nat}

/-- The work does on every machine of the given tables and depth, wherever its window stands,
what the step does on the tokens from the window on. -/
def Follows (source : Lexer) (tables : Lookups) (depth : Nat) ⦃α : Type⦄ (work : Work α)
    (step : Step α) : Prop :=
  ∀ (i : Nat) (m : Machine), m.ShowsAt source i → m.lookups = tables → m.depth = depth →
    Mirrors source i m (m.run work) (step (source.remaining.drop i))

/-! ### Putting work together -/

theorem follows_pure (value : α) : Follows source tables depth (pure value) (pure value) :=
  fun _ _ hshows _ _ => .ok (.refl hshows)

/-- One after the other: the first part of the work leaves the tables and the depth as they are,
and the second part starts where the window has been moved to. -/
theorem Follows.bind {first : Work α} {second : α → Work β} {step : Step α} {next : α → Step β}
    (hfirst : Follows source tables depth first step)
    (hsecond : ∀ value, Follows source tables depth (second value) (next value)) :
    Follows source tables depth (first >>= second) (step >>= next) := by
  intro i m hshows htables hdepth
  have hmirrors := hfirst i m hshows htables hdepth
  rw [run_bind, Step.bind_apply]
  revert hmirrors
  generalize m.run first = outcome
  generalize step (source.remaining.drop i) = reply
  intro hmirrors
  cases hmirrors with
  | @ok j m' value log hmoves =>
    have hlookups := hmoves.lookups.trans htables
    exact .after hmoves (hsecond value j m' hmoves.showsAt hlookups (hmoves.depth.trans hdepth))
  | fail hmoves => exact .fail hmoves
  | diverges => exact .diverges

theorem follows_attempt {work : Work α} {step : Step α}
    (h : Follows source tables depth work step) :
    Follows source tables depth (Reading.attempt work) (Step.attempt step) := by
  intro i m hshows htables hdepth
  have hmirrors := h i m hshows htables hdepth
  rw [run_attempt, Step.attempt_apply]
  revert hmirrors
  generalize m.run work = outcome
  generalize step (source.remaining.drop i) = reply
  intro hmirrors
  cases hmirrors with
  | ok hmoves => exact .ok hmoves
  | fail hmoves => exact .ok hmoves
  | diverges => exact .diverges

/-- A machine counts as many tokens from its window on as there are. -/
theorem follows_bounded {loop : Nat → Work α} {stepLoop : Nat → Step α}
    (h : ∀ rounds, Follows source tables depth (loop rounds) (stepLoop rounds)) :
    Follows source tables depth (Reading.bounded loop) (Step.bounded stepLoop) := by
  intro i m hshows htables hdepth
  have hloop := h (m.unread.length + 1) i m hshows htables hdepth
  rw [Step.bounded_apply, ← hshows.unread]
  rwa [← hshows.unread] at hloop

/-! ### Single moves -/

theorem follows_current :
    Follows source tables depth Reading.current Step.current := by
  intro i m hshows _ _
  rw [Step.current_apply, Lexer.current_drop, ← hshows.current]
  exact .ok (.refl hshows)

theorem follows_peek : Follows source tables depth Reading.peek Step.peek := by
  intro i m hshows _ _
  rw [Step.peek_apply, Lexer.peek_drop, ← hshows.peek]
  exact .ok (.refl hshows)

theorem follows_advance : Follows source tables depth Reading.advance Step.advance := by
  intro i m hshows _ _
  rw [Step.advance_apply, Lexer.current_drop, ← hshows.current, List.tail_drop]
  exact .ok hshows.moves_advance

theorem follows_expect (kind : Kind) :
    Follows source tables depth (Reading.expect kind) (Step.expect kind) := by
  intro i m hshows _ _
  show Mirrors source i m (some (m.expect kind)) _
  rw [Machine.expect, Step.expect_apply, Lexer.peek_drop, ← hshows.peek, List.tail_drop]
  by_cases hkind : m.peek.kind = kind
  · rw [Token.is, decide_eq_true hkind, if_pos hkind]
    exact .ok hshows.moves_advance
  · rw [Token.is, decide_eq_false hkind, if_neg hkind]
    exact .fail (.refl hshows)

theorem follows_skipSemicolon :
    Follows source tables depth Reading.skipSemicolon Step.skipSemicolon := by
  intro i m hshows _ _
  show Mirrors source i m (some (.ok (), if m.peek.is .semicolon then m.advance.2 else m)) _
  rw [Step.skipSemicolon_apply, Lexer.peek_drop, ← hshows.peek, List.tail_drop]
  by_cases hsemicolon : m.peek.kind = .semicolon
  · rw [Token.is, decide_eq_true hsemicolon, if_pos hsemicolon]
    exact .ok hshows.moves_advance
  · rw [Token.is, decide_eq_false hsemicolon, if_neg hsemicolon]
    exact .ok (.refl hshows)

theorem follows_synchronize (inBlock : Bool) :
    Follows source tables depth (Reading.synchronize inBlock) (Step.synchronize inBlock) := by
  intro i m hshows _ _
  obtain ⟨j, m', hrecover, hmoves, hrest⟩ := hshows.synchronize inBlock
  show Mirrors source i m ((m.synchronize inBlock).map fun m => (.ok (), m)) _
  rw [hrecover, Step.synchronize_apply, hrest]
  exact .ok hmoves

theorem follows_reject (cause : Fault) :
    Follows source tables depth (Reading.reject cause : Work α) (Step.reject cause) := by
  intro i m hshows _ _
  rw [Step.reject_apply, Lexer.current_drop, ← hshows.current]
  exact .fail (.refl hshows)

/-- What reading is made of is the same for a machine as for a step. -/
theorem transparent_follows :
    Reading.Transparent (fun _ => True) (Follows source tables depth) where
  pure := follows_pure
  advance := follows_advance
  expect := follows_expect
  skipSemicolon := follows_skipSemicolon
  synchronize := follows_synchronize
  forever _ _ _ _ _ := .diverges
  bind := Follows.bind
  current_bind hsecond := follows_current.bind fun t => hsecond t trivial
  peek_bind hsecond := follows_peek.bind fun t => hsecond t trivial
  bounded := follows_bounded
  reject := follows_reject
  fail _ _ _ hshows _ _ := .fail (.refl hshows)
  record diagnostic _ _ hshows _ _ := .ok (hshows.moves_record diagnostic)
  attempt := follows_attempt

/-! ### Levels -/

/-- Where there is room, what is done one level further in is done with the depth one higher,
and leaving the level takes just that one off. -/
theorem Follows.nested {work : Work α} {step : Step α} (hroom : depth < maxNesting)
    (h : Follows source tables (depth + 1) work step) :
    Follows source tables depth (Counting.nested work) step := by
  intro i m hshows htables hdepth
  have henter : m.enterNesting = (.ok (), { m with depth := depth + 1 }) := by
    rw [Machine.enterNesting, hdepth, if_neg (Nat.not_le.2 hroom)]
  have hinside := h i { m with depth := depth + 1 } ⟨hshows.current, hshows.peek, hshows.lexer⟩
    htables rfl
  rw [run_nested, henter]
  dsimp only
  revert hinside
  generalize Machine.run { m with depth := depth + 1 } work = outcome
  generalize step (source.remaining.drop i) = reply
  intro hinside
  -- the window stands where it has been moved to inside, and the depth is as it was
  have hleave {j : Nat} {m' : Machine} {log : List Diagnostic}
      (hmoves : Moves source i { m with depth := depth + 1 } j m' log) :
      Moves source i m j m'.leaveNesting log := by
    obtain ⟨hle, hat, hlog, hin, hsame⟩ := hmoves
    refine ⟨hle, ⟨hat.current, hat.peek, hat.lexer⟩, hlog, ?_, hsame⟩
    show m'.depth - 1 = m.depth
    rw [hin, hdepth]
    rfl
  cases hinside with
  | ok hmoves => exact .ok (hleave hmoves)
  | fail hmoves => exact .fail (hleave hmoves)
  | diverges => exact .diverges

/-- Where there is none, nothing is done. -/
theorem follows_nested_of_le {work : Work α} (hroom : maxNesting ≤ depth) :
    Follows source tables depth (Counting.nested work)
      (Step.reject (.nestingTooDeep maxNesting)) := by
  intro i m hshows htables hdepth
  have henter : m.enterNesting = (.error (m.error (.nestingTooDeep maxNesting)), m) := by
    rw [Machine.enterNesting, hdepth, if_pos hroom]
  rw [run_nested, henter, Step.reject_apply, Lexer.current_drop, ← hshows.current]
  exact .fail (.refl hshows)

/-- **Reading with a machine is reading by the grammar of its tables**, if these are in step: then
no rule is missed where an expression is continued, and it goes on just where the grammar says
so. -/
theorem simulates (htables : tables.InStep) :
    Counting.Simulates tables.grammar (Follows source tables) where
  transparent _ := transparent_follows
  statementRule_bind h := by
    rintro i m hshows rfl hdepth
    exact h i m hshows rfl hdepth
  prefixRule_bind h := by
    rintro i m hshows rfl hdepth
    exact h i m hshows rfl hdepth
  continuesAt_bind h := by
    rw [htables.continuesAt?_grammar] at h
    rintro i m hshows rfl hdepth
    exact h i m hshows rfl hdepth
  nested := Follows.nested
  nested_of_le := follows_nested_of_le

end Work

end Script
