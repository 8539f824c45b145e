import Script.Proofs.Lookahead
import Script.Proofs.Parallel

/-!
# Reading with a counter

The room for expressions inside each other is handed down from one reader to the next, so
that nobody has to give it back.  One who reads can also keep count: the depth goes up by one
when an expression is entered and down by one when it is left, whether an expression has been
read or a diagnostic is on its way out.  The entries for a kind of token are then looked up in
the tables that there are at the time.

What is read is the same, whoever counts, if the tables are those of a grammar, the single moves
do what those of a step do, and a level that is entered and left again leaves the depth as it is.

## Main definitions

* `Counting` — the single moves of one who counts.
* `Counting.nested` — one level further in.
* `Counting.expression`, `Counting.statement`, `Counting.program` — reading by the tables.
* `Request.counted` — reading what is asked for.
* `Counting.Simulates` — the single moves do at each depth what those of a step do.

## Main results

* `Counting.Simulates.expression`, `Counting.Simulates.statement`,
  `Counting.Simulates.program` — **reading with a counter is reading in the room that it leaves.**
* `Counting.Simulates.request` — so it is with whatever is asked for.
-/

namespace Script

variable {M : Type → Type} {α : Type}

/-- The single moves of one who counts how many expressions are open. -/
class Counting (M : Type → Type) extends Reading M where
  /-- Adds one to the depth, unless there is no room. -/
  enterNesting : M Unit
  /-- Takes one off the depth. -/
  leaveNesting : M Unit
  /-- Looks up the rule for a kind of token at which a statement starts. -/
  statementRule? (kind : Kind) : M (Option StatementRule)
  /-- Looks up the rule for a kind of token at which an expression starts. -/
  prefixRule? (kind : Kind) : M (Option PrefixRule)
  /-- Looks up how an expression goes on at the token behind it, if the token binds tighter than
  a power. -/
  continuesAt? (power : BindingPower) (ahead : Token) : M (Option Continuation)

namespace Counting

/-! ### Reading by the tables -/

section

variable [Counting M]

/-- Does something one level further in.  The level is left before a diagnostic is handed on,
as it is before a value is. -/
def nested (read : M α) : M α := do
  enterNesting
  let result ← Reading.attempt read
  leaveNesting
  match result with
  | .ok value => pure value
  | .error diagnostic => Reading.fail diagnostic

/-- Continues an expression for as long as the next token binds tighter than `power`. -/
def operators (expr : BindingPower → M Expr) (power : BindingPower) : Nat → Expr → M Expr
  | 0, _ => Reading.forever
  | rounds + 1, left => do
    let ahead ← Reading.peek
    match ← continuesAt? power ahead with
    | none => pure left
    | some next => do
      let _ ← Reading.advance
      let left ← next.rule.read expr left next.power
      operators expr power rounds left

/-- Reads a statement: by the rule for its first token, or else as an expression. -/
def statementWith (expr : BindingPower → M Expr) : M Stmt := do
  let token ← Reading.current
  let rule ← statementRule? token.kind
  (rule.getD .expression).read expr

/-- Reads an expression by the rule for its first token, continued by the operators that
follow. -/
def expressionWith (expr : BindingPower → M Expr) (power : BindingPower) : M Expr := do
  let token ← Reading.current
  match ← prefixRule? token.kind with
  | none => Reading.reject (.noPrefixRule token.kind)
  | some rule => do
    let left ← rule.read expr (statementWith expr)
    Reading.bounded fun rounds => operators expr power rounds left

/-- Reads an expression whose operators all bind tighter than a given power.  The number only
bounds how far the definition is unfolded; it is the depth that says where to stop. -/
def expression : Nat → BindingPower → M Expr
  | 0, _ => Reading.forever
  | levels + 1, power => nested (expressionWith (expression levels) power)

/-- Reads a statement. -/
def statement (levels : Nat) : M Stmt := statementWith (expression levels)

/-- Reads a program. -/
def program (levels : Nat) : M Program := do
  let statements ← Reading.bounded (Grammar.programStatements (statement levels))
  pure ⟨statements⟩

end

end Counting

/-- What one who counts does to read what is asked for. -/
def Request.counted [Counting M] : Request α → M α
  | .expression power => Counting.expression (maxNesting + 1) power
  | .prefixRule rule =>
    rule.read (Counting.expression (maxNesting + 1)) (Counting.statement (maxNesting + 1))
  | .continuation left power rule => rule.read (Counting.expression (maxNesting + 1)) left power
  | .statement | .statementRule .lookup => Counting.statement (maxNesting + 1)
  | .statementRule rule => rule.read (Counting.expression (maxNesting + 1))
  | .recovery inBlock => Reading.synchronize inBlock
  | .program => Counting.program (maxNesting + 1)

namespace Counting

/-! ### Counting and handing down -/

variable [Counting M]

/-- At each depth there is a relation between what one does who counts and a step.  It is kept by
what reading is made of, where the tables are those of a grammar, and leads from one depth to
the next. -/
structure Simulates (g : Grammar) (R : Nat → ∀ ⦃α : Type⦄, M α → Step α → Prop) : Prop where
  /-- Whatever goes wrong, the single moves are those of a step. -/
  transparent : ∀ depth, Reading.Transparent (fun _ => True) (R depth)
  /-- The rule that is looked up for a statement is that of the grammar, -/
  statementRule_bind : ∀ {depth : Nat} {kind : Kind} {α : Type}
    {second : Option StatementRule → M α} {step : Step α},
    R depth (second (g.statementRule kind)) step → R depth (statementRule? kind >>= second) step
  /-- so is the one for an expression, -/
  prefixRule_bind : ∀ {depth : Nat} {kind : Kind} {α : Type} {second : Option PrefixRule → M α}
    {step : Step α},
    R depth (second (g.prefixRule kind)) step → R depth (prefixRule? kind >>= second) step
  /-- and an expression goes on where it does by the grammar. -/
  continuesAt_bind : ∀ {depth : Nat} {power : BindingPower} {ahead : Token} {α : Type}
    {second : Option Continuation → M α} {step : Step α},
    R depth (second (g.continuesAt? power ahead)) step →
      R depth (continuesAt? power ahead >>= second) step
  /-- Where there is room, what is done one level further in is done with the depth one higher. -/
  nested : ∀ {depth : Nat} {α : Type} {read : M α} {step : Step α}, depth < maxNesting →
    R (depth + 1) read step → R depth (nested read) step
  /-- Where there is none, nothing is done. -/
  nested_of_le : ∀ {depth : Nat} {α : Type} {read : M α}, maxNesting ≤ depth →
    R depth (Counting.nested read) (Step.reject (.nestingTooDeep maxNesting))

namespace Simulates

variable {g : Grammar} {R : Nat → ∀ ⦃α : Type⦄, M α → Step α → Prop} {depth levels : Nat}
  {expr : BindingPower → M Expr} {reader : ExprReader}

section

variable (h : Simulates g R)

include h

theorem operators (hexpr : ∀ power, R depth (expr power) (reader power)) (power : BindingPower)
    (rounds : Nat) (left : Expr) :
    R depth (operators expr power rounds left) (g.operators reader power rounds left) := by
  have ht := h.transparent depth
  induction rounds generalizing left with
  | zero => exact ht.forever
  | succ rounds ih =>
    refine ht.peek_bind ?_
    intro ahead _
    refine h.continuesAt_bind ?_
    cases g.continuesAt? power ahead with
    | none => exact ht.pure left
    | some next =>
      refine ht.bind ht.advance ?_
      intro _
      exact ht.bind (ht.parallel.infixRule hexpr left next.power next.rule) ih

theorem statementWith (hexpr : ∀ power, R depth (expr power) (reader power)) :
    R depth (statementWith expr) (g.statementWith reader) := by
  refine (h.transparent depth).current_bind ?_
  intro token _
  exact h.statementRule_bind ((h.transparent depth).parallel.statementRule hexpr _)

theorem expressionWith (hexpr : ∀ power, R depth (expr power) (reader power))
    (power : BindingPower) :
    R depth (expressionWith expr power) (g.expressionWith reader power) := by
  have ht := h.transparent depth
  refine ht.current_bind ?_
  intro token _
  refine h.prefixRule_bind ?_
  cases g.prefixRule token.kind with
  | none => exact ht.reject _
  | some rule =>
    refine ht.bind (ht.parallel.prefixRule hexpr (h.statementWith hexpr) rule) ?_
    intro left
    exact ht.bounded fun rounds => h.operators hexpr power rounds left

/-- **Reading with a counter is reading in the room that it leaves**, if the definition is
unfolded far enough for the depth to come to its limit. -/
theorem expression (hlevels : maxNesting - depth < levels) (power : BindingPower) :
    R depth (expression levels power) (g.expression (maxNesting - depth) power) := by
  induction levels generalizing depth power with
  | zero => exact absurd hlevels (Nat.not_lt_zero _)
  | succ levels ih =>
    by_cases hroom : maxNesting ≤ depth
    · rw [Nat.sub_eq_zero_of_le hroom, Grammar.expression_zero]
      exact h.nested_of_le hroom
    · -- one level further in, there is less room and less that has to be unfolded
      have hless : maxNesting - depth = maxNesting - (depth + 1) + 1 := by omega
      rw [hless, Grammar.expression_succ]
      have hinside := h.expressionWith (ih (by omega : maxNesting - (depth + 1) < levels))
      exact h.nested (Nat.not_le.1 hroom) (hinside power)

theorem statement (hlevels : maxNesting - depth < levels) :
    R depth (statement levels) (g.statement (maxNesting - depth)) :=
  h.statementWith (h.expression hlevels)

theorem program (hlevels : maxNesting - depth < levels) :
    R depth (program levels) (g.program (maxNesting - depth)) := by
  have ht := h.transparent depth
  have hloop := ht.programStatements (h.statement hlevels)
  exact ht.bind (ht.bounded hloop) fun statements => ht.pure _

/-- So it is with whatever is asked for. -/
theorem request (request : Request α) :
    R depth request.counted (request.step g (g.expression (maxNesting - depth))) := by
  have hlevels : maxNesting - depth < maxNesting + 1 := by omega
  have hexpr := h.expression hlevels
  have hstmt := h.statementWith hexpr
  have hparallel := (h.transparent depth).parallel
  cases request with
  | expression power => exact hexpr power
  | prefixRule rule => exact hparallel.prefixRule hexpr hstmt rule
  | continuation left power rule => exact hparallel.infixRule hexpr left power rule
  | statement => exact hstmt
  | statementRule rule =>
    cases rule with
    | lookup => exact hstmt
    | letBinding => exact hparallel.statementRule hexpr .letBinding
    | returnValue => exact hparallel.statementRule hexpr .returnValue
    | expression => exact hparallel.statementRule hexpr .expression
  | recovery inBlock => exact (h.transparent depth).synchronize inBlock
  | program => exact h.program hlevels

end

end Simulates

end Counting

end Script
