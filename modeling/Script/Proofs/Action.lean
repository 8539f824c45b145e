import Script.Proofs.Counting

/-!
# Parsers that count

A parser can keep count itself of how deep it stands.  The single moves are then actions on the
state of the parser, which look the entries up in the tables that the parser has at the time.
Such a parser does what one does whose readers are told the room: whatever the tables are,
entering an expression at some depth leaves the room behind it for what stands in it, and the
depth is the same again when the expression has been left, with a value or with a diagnostic.

## Main definitions

* `Action`, `Parser.act` — what a parser does with its own state.
* `Action.Follows` — an action does what a step does, at given tables and a given depth.

## Main results

* `Action.Follows.bind`, `Action.follows_attempt`, `Action.Follows.nested` — one action after
  another, what it ends with, and levels.
* `Action.simulates` — **a parser that counts does what one does that is told the room.**
-/

namespace Script

variable {α β : Type}

/-! ### Actions -/

/-- What a parser does with its own state: it hands on a value or a diagnostic, or never comes
to an end. -/
abbrev Action := ExceptT Diagnostic (StateT Parser Option)

/-- What comes of an action, and the parser after it. -/
def Parser.act (p : Parser) (action : Action α) : Option (Except Diagnostic α × Parser) :=
  action.run.run p

/-- A step that enters no expression is taken as it is. -/
instance : MonadLift Step Action where
  monadLift step := fun p => p.run step

instance : Reading Action where
  current := Step.current
  peek := Step.peek
  advance := Step.advance
  expect kind := Step.expect kind
  skipSemicolon := Step.skipSemicolon
  synchronize inBlock := Step.synchronize inBlock
  fail := throw
  reject cause := liftM (Step.reject cause)
  record diagnostic := Step.record diagnostic
  attempt := observing
  forever := fun _ => none
  bounded loop := do loop ((← get).tokens.length + 1)

instance : Counting Action where
  enterNesting p := some p.enterNesting
  leaveNesting := modify Parser.leaveNesting
  statementRule? kind := return (← get).grammar.statementRule kind
  prefixRule? kind := return (← get).grammar.prefixRule kind
  continuesAt? power ahead := return (← get).grammar.continuesAt? power ahead

/-! ### What a step leaves alone -/

namespace Parser

/-- A step changes neither the depth nor the tables, and only adds diagnostics. -/
theorem run_frame {p q : Parser} {step : Step α} {result : Except Diagnostic α}
    (h : p.run step = some (result, q)) :
    q.depth = p.depth ∧ q.grammar = p.grammar ∧ p.diagnostics <+: q.diagnostics := by
  unfold run at h
  split at h
  · cases h
    exact ⟨rfl, rfl, List.prefix_append _ _⟩
  · cases h
    exact ⟨rfl, rfl, List.prefix_append _ _⟩
  · cases h

/-- The second of two steps is taken by the parser that the first one leaves. -/
theorem run_bind (p : Parser) (first : Step α) (second : α → Step β) :
    p.run (first >>= second) =
      match p.run first with
      | some (.ok value, q) => q.run (second value)
      | some (.error diagnostic, q) => some (.error diagnostic, q)
      | none => none := by
  unfold run
  rw [Step.bind_apply]
  cases first p.tokens with
  | ok value rest log =>
    dsimp only
    cases second value rest <;> simp
  | fail diagnostic rest log => rfl
  | diverges => rfl

@[simp] theorem run_pure (p : Parser) (value : α) :
    p.run (pure value) = some (.ok value, p) := by
  simp [run, Step.pure_apply]

@[simp] theorem run_fail (p : Parser) (diagnostic : Diagnostic) :
    p.run (Step.fail diagnostic : Step α) = some (.error diagnostic, p) := by
  simp [run]

@[simp] theorem run_reject (p : Parser) (cause : Fault) :
    p.run (Step.reject cause : Step α) = some (.error (p.error cause), p) := by
  simp [run, error, current]

/-! ### What an action does -/

@[simp] theorem act_pure (p : Parser) (value : α) :
    p.act (pure value) = some (.ok value, p) := rfl

theorem act_bind (p : Parser) (first : Action α) (second : α → Action β) :
    p.act (first >>= second) =
      match p.act first with
      | some (.ok value, q) => q.act (second value)
      | some (.error diagnostic, q) => some (.error diagnostic, q)
      | none => none := by
  show (p.act first).bind _ = _
  cases p.act first with
  | none => rfl
  | some outcome =>
    obtain ⟨result, q⟩ := outcome
    cases result <;> rfl

/-- What an action ends with is handed on by the parser that it leaves. -/
theorem act_attempt (p : Parser) (action : Action α) :
    p.act (Reading.attempt action) =
      (p.act action).map fun outcome => (.ok outcome.1, outcome.2) := by
  show Option.bind (Option.bind (p.act action) _) _ = _
  cases p.act action with
  | none => rfl
  | some outcome =>
    obtain ⟨result, q⟩ := outcome
    cases result <;> rfl

end Parser

namespace Action

variable {g : Grammar} {depth : Nat}

/-- The action does on every parser of the given tables and depth what the step does. -/
def Follows (g : Grammar) (depth : Nat) ⦃α : Type⦄ (action : Action α) (step : Step α) : Prop :=
  ∀ p : Parser, p.grammar = g → p.depth = depth → p.act action = p.run step

/-! ### Putting actions together -/

theorem follows_pure (value : α) : Follows g depth (pure value) (pure value) := by
  intro p _ _
  rw [Parser.act_pure, Parser.run_pure]

/-- One action after another: the first step leaves the tables and the depth as they are. -/
theorem Follows.bind {first : Action α} {second : α → Action β} {step : Step α}
    {next : α → Step β} (hfirst : Follows g depth first step)
    (hsecond : ∀ value, Follows g depth (second value) (next value)) :
    Follows g depth (first >>= second) (step >>= next) := by
  intro p hgrammar hdepth
  rw [Parser.act_bind, Parser.run_bind, hfirst p hgrammar hdepth]
  split
  · next value q hrun =>
    obtain ⟨hq, hg, -⟩ := Parser.run_frame hrun
    exact hsecond value q (hg.trans hgrammar) (hq.trans hdepth)
  · rfl
  · rfl

theorem follows_attempt {action : Action α} {step : Step α} (h : Follows g depth action step) :
    Follows g depth (Reading.attempt action) (Step.attempt step) := by
  intro p hgrammar hdepth
  rw [Parser.act_attempt, h p hgrammar hdepth, Parser.run, Parser.run, Step.attempt_apply]
  cases step p.tokens <;> rfl

theorem follows_fail (diagnostic : Diagnostic) :
    Follows g depth (Reading.fail diagnostic : Action α) (Step.fail diagnostic) := by
  intro p _ _
  rw [Parser.run_fail]
  rfl

/-- What reading is made of is the same for an action as for a step. -/
theorem transparent_follows : Reading.Transparent (fun _ => True) (Follows g depth) where
  pure := follows_pure
  advance _ _ _ := rfl
  expect _ _ _ _ := rfl
  skipSemicolon _ _ _ := rfl
  synchronize _ _ _ _ := rfl
  forever _ _ _ := rfl
  bind := Follows.bind
  current_bind hsecond := Follows.bind (fun _ _ _ => rfl) fun t => hsecond t trivial
  peek_bind hsecond := Follows.bind (fun _ _ _ => rfl) fun t => hsecond t trivial
  bounded hloop p hgrammar hdepth := hloop (p.tokens.length + 1) p hgrammar hdepth
  reject _ _ _ _ := rfl
  fail := follows_fail
  record _ _ _ _ := rfl
  attempt := follows_attempt

/-! ### Levels -/

/-- Where there is room, what is done one level further in is done with the depth one higher,
and leaving the level takes just that one off. -/
theorem Follows.nested {action : Action α} {step : Step α} (hroom : depth < maxNesting)
    (h : Follows g (depth + 1) action step) : Follows g depth (Counting.nested action) step := by
  intro p hgrammar hdepth
  have henter : p.act Counting.enterNesting = some (.ok (), { p with depth := depth + 1 }) := by
    show some p.enterNesting = _
    rw [Parser.enterNesting, hdepth, if_neg (Nat.not_le.2 hroom)]
  have hinside := h { p with depth := depth + 1 } hgrammar rfl
  rw [Counting.nested, Parser.act_bind, henter]
  dsimp only
  rw [Parser.act_bind, Parser.act_attempt, hinside]
  subst hdepth
  unfold Parser.run
  cases step p.tokens <;> rfl

/-- Where there is none, nothing is done. -/
theorem follows_nested_of_le {action : Action α} (hroom : maxNesting ≤ depth) :
    Follows g depth (Counting.nested action) (Step.reject (.nestingTooDeep maxNesting)) := by
  intro p hgrammar hdepth
  have henter : p.act Counting.enterNesting =
      some (.error (p.error (.nestingTooDeep maxNesting)), p) := by
    show some p.enterNesting = _
    rw [Parser.enterNesting, hdepth, if_pos hroom]
  rw [Counting.nested, Parser.act_bind, henter, Parser.run_reject]

/-- **A parser that counts does what one does that is told the room**: the tables that it looks
at are the given ones, whatever the depth. -/
theorem simulates (g : Grammar) : Counting.Simulates g (Follows g) where
  transparent _ := transparent_follows
  statementRule_bind h := by
    rintro p rfl hdepth
    exact h p rfl hdepth
  prefixRule_bind h := by
    rintro p rfl hdepth
    exact h p rfl hdepth
  continuesAt_bind h := by
    rintro p rfl hdepth
    exact h p rfl hdepth
  nested := Follows.nested
  nested_of_le := follows_nested_of_le

end Action

end Script
