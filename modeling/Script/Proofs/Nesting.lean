import Script.Proofs.Action
import Script.Proofs.Registration

/-!
# The depth of a parser

A parser that counts how deep it stands counts right.  Whatever it is asked to read, it stands
as deep afterwards as before, however much has been given up inside, so that an error never
takes room from what is read next.  Only entering and leaving levels from outside changes the
depth, and even so it stays within its limit.

## Main definitions

* `Request.action` — what a parser that counts its depth does to read what it is asked to.
* `Command`, `Parser.execute`, `Parser.executeAll` — what a parser can be told to do.

## Main results

* `Parser.act_action` — a parser that counts reads what one that is told the room does.
* `Parser.depth_executeAll_le` — the depth stays within its limit.
* `Parser.act_balanced` — reading leaves the depth and the tables as they are.
-/

namespace Script

variable {α : Type}

/-! ### Requests -/

/-- What a parser that counts its depth does to read what it is asked to. -/
def Request.action (request : Request α) : Action α := request.counted

namespace Parser

/-- A parser that counts its depth reads what one does that is told the room. -/
theorem act_action (p : Parser) (request : Request α) :
    p.act request.action = p.perform request := by
  rw [perform_eq_run]
  exact (Action.simulates p.grammar).request request p rfl rfl

end Parser

/-! ### Commands -/

/-- What a parser can be told to do from outside. -/
inductive Command where
  /-- The state is looked at, or a diagnostic is made out of it. -/
  | look
  /-- The current token is taken. -/
  | advance
  /-- The next token is moved on to if it has the given kind. -/
  | expect (kind : Kind)
  /-- A diagnostic is added. -/
  | record (diagnostic : Diagnostic)
  /-- A level is entered, if there is room. -/
  | enterNesting
  /-- A level is left, whether one has been entered or not. -/
  | leaveNesting
  /-- The tables are changed. -/
  | register (change : Registration)
  /-- Something is read. -/
  | read {α : Type} (request : Request α)

namespace Parser

/-- The parser after a command, if it comes to an end. -/
def execute (p : Parser) : Command → Option Parser
  | .look => some p
  | .advance => some p.advance.2
  | .expect kind => some (p.expect kind).2
  | .record diagnostic => some (p.record diagnostic)
  | .enterNesting => some p.enterNesting.2
  | .leaveNesting => some p.leaveNesting
  | .register change => some (p.register change)
  | .read request => (p.act request.action).map Prod.snd

/-- The parser after commands, one after the other. -/
def executeAll (p : Parser) (commands : List Command) : Option Parser :=
  commands.foldlM execute p

/-! ### Depth -/

/-- Whatever a parser has read, with a value or with a diagnostic, it stands as deep and has
the same tables as before, and has only added diagnostics. -/
theorem perform_frame {p q : Parser} {request : Request α} {result : Except Diagnostic α}
    (h : p.perform request = some (result, q)) :
    q.depth = p.depth ∧ q.grammar = p.grammar ∧ p.diagnostics <+: q.diagnostics := by
  obtain ⟨step, -, heq⟩ := exists_perform_eq_run p.grammar p.depth request
  rw [heq p rfl rfl] at h
  exact run_frame h

theorem depth_expect (p : Parser) (kind : Kind) : (p.expect kind).2.depth = p.depth := by
  unfold expect
  split
  · rfl
  · rfl

theorem depth_register (p : Parser) (change : Registration) :
    (p.register change).depth = p.depth := by
  cases change <;> rfl

/-- A level is only entered below the limit. -/
theorem depth_enterNesting_le {p : Parser} (hp : p.depth ≤ maxNesting) :
    p.enterNesting.2.depth ≤ maxNesting := by
  unfold enterNesting
  split
  · exact hp
  · next hroom => exact Nat.not_le.1 hroom

/-- No command leads out of the limit. -/
theorem depth_execute_le {p q : Parser} {command : Command} (hp : p.depth ≤ maxNesting)
    (h : p.execute command = some q) : q.depth ≤ maxNesting := by
  cases command with
  | look | advance | record =>
    cases h
    exact hp
  | expect kind =>
    cases h
    rwa [depth_expect]
  | enterNesting =>
    cases h
    exact depth_enterNesting_le hp
  | leaveNesting =>
    cases h
    exact (Nat.sub_le p.depth 1).trans hp
  | register change =>
    cases h
    rwa [depth_register]
  | read request =>
    obtain ⟨⟨result, r⟩, hact, rfl⟩ := Option.map_eq_some_iff.1 h
    rw [act_action] at hact
    exact (perform_frame hact).1.trans_le hp

/-- Nor does any number of them. -/
theorem depth_executeAll_le {p q : Parser} {commands : List Command}
    (hp : p.depth ≤ maxNesting) (h : p.executeAll commands = some q) : q.depth ≤ maxNesting := by
  induction commands generalizing p with
  | nil =>
    cases h
    exact hp
  | cons command commands ih =>
    obtain ⟨r, hr, hmore⟩ := Option.bind_eq_some_iff.1 h
    exact ih (depth_execute_le hp hr) hmore

/-- **Nesting is accounted for on every path.**  A parser that counts its depth reads what one
does that is told the room.  Whatever its tables are and whatever it has been asked to read, it
stands as deep afterwards as before, has the same tables and has only added diagnostics, if it
has read something as well as if it ends with a diagnostic.  Whatever is done with it from
outside, its depth stays within the limit. -/
theorem act_balanced :
    (∀ {α : Type} (p : Parser) (request : Request α),
      p.act request.action = p.perform request) ∧
    (∀ {α : Type} (p q : Parser) (request : Request α) (result : Except Diagnostic α),
      p.act request.action = some (result, q) →
        q.depth = p.depth ∧ q.grammar = p.grammar ∧ p.diagnostics <+: q.diagnostics) ∧
    ∀ (p q : Parser) (commands : List Command), p.depth ≤ maxNesting →
      p.executeAll commands = some q → q.depth ≤ maxNesting := by
  refine ⟨fun p request => act_action p request, ?_, ?_⟩
  · intro α p q request result hact
    rw [act_action] at hact
    exact perform_frame hact
  · intro p q commands hp hexecute
    exact depth_executeAll_le hp hexecute

/-- Too deep a nesting inside a block leaves the parser as deep as it has been, with all of its
room for what is read next; leaving a level that has not been entered only makes more room. -/
theorem act_balanced_tooDeep :
    let p : Parser := { Parser.ofString "\x7b !x; \x7d y" with depth := 62 }
    let q : Parser := { p with tokens := p.tokens.drop 2 }
    let d : Diagnostic := ⟨.nestingTooDeep 64, ⟨.ident, "x"⟩⟩
    p.act (Request.action .statement) = some (.error d, q) ∧
      (q.depth = p.depth ∧ q.grammar = p.grammar ∧ p.diagnostics <+: q.diagnostics) ∧
      p.depth ≤ maxNesting ∧
      p.executeAll [.read .statement, .leaveNesting] = some { q with depth := 61 } ∧
      61 ≤ maxNesting := by
  intro p q d
  have hread : Grammar.standard.statement 2 p.tokens =
      .fail d (p.tokens.drop 2) [] := by decide +kernel
  have hperform : p.perform .statement = some (.error d, q) := by
    show p.run (Grammar.standard.statement 2) = _
    unfold run
    rw [hread]
    rfl
  have hact : p.act (Request.action .statement) = some (.error d, q) := by
    rw [act_balanced.1, hperform]
  have hexecute : p.executeAll [.read .statement, .leaveNesting] = some { q with depth := 61 } := by
    show ((p.act (Request.action .statement)).map Prod.snd).bind _ = _
    rw [hact]
    rfl
  have hp : p.depth ≤ maxNesting := by decide
  exact ⟨hact, act_balanced.2.1 p q _ _ hact, hp, hexecute, act_balanced.2.2 p _ _ hp hexecute⟩

end Parser

end Script
