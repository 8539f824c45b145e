import Script.Proofs.Machine

/-!
# Reading with a machine

The single moves once more, as work that a machine does: every look at a token is one at the two
that the machine keeps, every move reads a token from the source, and every rule and every power
is looked up in its own table at the time.  The machine keeps count of how deep it stands.

## Main definitions

* `Work`, `Machine.run` — what a machine does with its own state.
* `Machine.perform`, `Machine.execute`, `Machine.executeAll` — what a machine can be told to do.
-/

namespace Script

/-- What a machine does with its own state: it hands on a value or a diagnostic, or never comes
to an end. -/
abbrev Work := ExceptT Diagnostic (StateT Machine Option)

/-- What comes of the work, and the machine after it. -/
def Machine.run {α : Type} (m : Machine) (work : Work α) :
    Option (Except Diagnostic α × Machine) :=
  ExceptT.run work m

instance : Reading Work where
  current := return (← get).current
  peek := return (← get).peek
  advance m := some (.ok m.advance.1, m.advance.2)
  expect kind m := some (m.expect kind)
  skipSemicolon m := some (.ok (), if m.peek.is .semicolon then m.advance.2 else m)
  synchronize inBlock m := (m.synchronize inBlock).map fun m => (.ok (), m)
  fail := throw
  reject cause := do throw ((← get).error cause)
  record diagnostic := modify fun m => m.record diagnostic
  attempt := observing
  forever := fun _ => none
  bounded loop := do loop ((← get).unread.length + 1)

instance : Counting Work where
  enterNesting m := some m.enterNesting
  leaveNesting := modify Machine.leaveNesting
  statementRule? kind := return (← get).lookups.statementRule kind
  prefixRule? kind := return (← get).lookups.prefixRule kind
  continuesAt? power ahead := return (← get).lookups.continuesAt? power ahead

/-! ### What a machine can be told to do -/

/-- What a machine does to read what it is asked to. -/
def Request.work {α : Type} (request : Request α) : Work α := request.counted

namespace Machine

/-- Reads what it is asked to, if reading comes to an end. -/
def perform {α : Type} (m : Machine) (request : Request α) :
    Option (Except Diagnostic α × Machine) :=
  m.run request.work

/-- The machine after a command, if it comes to an end. -/
def execute (m : Machine) : Command → Option Machine
  | .look => some m
  | .advance => some m.advance.2
  | .expect kind => some (m.expect kind).2
  | .record diagnostic => some (m.record diagnostic)
  | .enterNesting => some m.enterNesting.2
  | .leaveNesting => some m.leaveNesting
  | .register change => some (m.register change)
  | .read request => (m.perform request).map Prod.snd

/-- The machine after commands, one after the other. -/
def executeAll (m : Machine) (commands : List Command) : Option Machine :=
  commands.foldlM execute m

end Machine

end Script
