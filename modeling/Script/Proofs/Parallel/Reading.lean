import Script.Proofs.Lookahead
import Script.Proofs.Parallel

/-!
# Two grammars side by side

Two readers of tokens may use different grammars, or do different things where there is no room
left.  Where a token is looked up, only the tokens count at whose kinds the two grammars agree.
A relation that is kept by what the rules are made of then holds between the two ways to read
expressions and statements, in any room, if it holds between what they do where there is none.

## Main definitions

* `Grammar.AgreesAt` — two grammars have the same entries for a kind of token.
* `Grammar.expressionWithin` — reading with something else in place of the limit.
* `Grammar.Parallel` — the conditions on the relation.

## Main results

* `Grammar.Parallel.expressionWithin` — the two ways to read expressions are related.
* `Grammar.Parallel.request` — so is whatever a parser can be asked to read, but for a program.
-/

namespace Script

open Step

/-! ### Grammars -/

namespace Grammar

/-- The grammars have the same entries for a kind of token. -/
structure AgreesAt (g g' : Grammar) (kind : Kind) : Prop where
  /-- The same rule reads the expressions that start with it. -/
  prefixRule : g'.prefixRule kind = g.prefixRule kind
  /-- Expressions go on at it in the same way. -/
  continuation : g'.continuation kind = g.continuation kind
  /-- The same rule reads the statements that start with it. -/
  statementRule : g'.statementRule kind = g.statementRule kind

theorem AgreesAt.refl (g : Grammar) (kind : Kind) : g.AgreesAt g kind := ⟨rfl, rfl, rfl⟩

theorem AgreesAt.continuesAt? {g g' : Grammar} {t : Token} (h : g.AgreesAt g' t.kind)
    (power : BindingPower) : g'.continuesAt? power t = g.continuesAt? power t := by
  have hpower : g'.bindingPower t.kind = g.bindingPower t.kind := by
    rw [bindingPower, bindingPower, h.continuation]
  rw [Grammar.continuesAt?, Grammar.continuesAt?, hpower, h.continuation]

/-- Reads an expression as the grammar does, but for what happens where there is no room. -/
def expressionWithin (g : Grammar) (limit : ExprReader) : Nat → ExprReader
  | 0 => limit
  | room + 1 => fun power => g.expressionWith (expressionWithin g limit room) power

/-- The limit that there is. -/
def limit : ExprReader := fun _ => Step.reject (.nestingTooDeep maxNesting)

theorem expressionWithin_limit (g : Grammar) (room : Nat) :
    g.expressionWithin limit room = g.expression room := by
  induction room with
  | zero => rfl
  | succ room ih =>
    funext power
    rw [expressionWithin, ih, expression_succ]

end Grammar

/-- Something less than a whole program is asked for. -/
def Request.isPart {α : Type} : Request α → Bool
  | .program => false
  | _ => true

/-! ### Relations -/

/-- The relation between steps is kept by what the rules of the grammars are made of. -/
abbrev Grammar.Parallel (g g' : Grammar) (R : ∀ ⦃α : Type⦄, Step α → Step α → Prop) : Prop :=
  Reading.Parallel (fun t => g.AgreesAt g' t.kind) R

namespace Grammar.Parallel

variable {α : Type} {g g' : Grammar} {R : ∀ ⦃α : Type⦄, Step α → Step α → Prop}
  {expr expr' : ExprReader}

section

variable (h : g.Parallel g' R) (hexpr : ∀ power, R (expr power) (expr' power))

include h hexpr

theorem statementWith : R (g.statementWith expr) (g'.statementWith expr') := by
  refine h.current_bind ?_
  intro t hagrees
  rw [hagrees.statementRule]
  exact h.statementRule hexpr _

theorem operators (power : BindingPower) (rounds : Nat) (left : Expr) :
    R (g.operators expr power rounds left) (g'.operators expr' power rounds left) := by
  induction rounds generalizing left with
  | zero => exact h.forever
  | succ rounds ih =>
    refine h.peek_bind ?_
    intro t hagrees
    rw [hagrees.continuesAt?]
    cases g.continuesAt? power t with
    | none => exact h.pure left
    | some next =>
      refine h.bind h.advance ?_
      intro _
      exact h.bind (h.infixRule hexpr left next.power next.rule) ih

theorem expressionWith (power : BindingPower) :
    R (g.expressionWith expr power) (g'.expressionWith expr' power) := by
  refine h.current_bind ?_
  intro t hagrees
  rw [hagrees.prefixRule]
  cases g.prefixRule t.kind with
  | none => exact h.reject rfl
  | some rule =>
    refine h.bind (h.prefixRule hexpr (h.statementWith hexpr) rule) ?_
    intro left
    exact h.bounded fun rounds => h.operators hexpr power rounds left

/-- So is whatever a parser can be asked to read, but for a program, in which statements are
given up over whatever is found wrong. -/
theorem request {request : Request α} (hpart : request.isPart = true) :
    R (request.step g expr) (request.step g' expr') := by
  have hstmt := h.statementWith hexpr
  cases request with
  | expression power => exact hexpr power
  | prefixRule rule => exact h.prefixRule hexpr hstmt rule
  | continuation left power rule => exact h.infixRule hexpr left power rule
  | statement => exact hstmt
  | statementRule rule =>
    cases rule with
    | lookup => exact hstmt
    | letBinding => exact h.statementRule hexpr .letBinding
    | returnValue => exact h.statementRule hexpr .returnValue
    | expression => exact h.statementRule hexpr .expression
  | recovery inBlock => exact h.synchronize inBlock
  | program => cases hpart

end

variable {limit limit' : ExprReader}

/-- **The two ways to read expressions are related**, however much room there is, if they are
where there is none. -/
theorem expressionWithin (h : g.Parallel g' R) (hlimit : ∀ power, R (limit power) (limit' power))
    (room : Nat) (power : BindingPower) :
    R (g.expressionWithin limit room power) (g'.expressionWithin limit' room power) := by
  induction room generalizing power with
  | zero => exact hlimit power
  | succ room ih => exact h.expressionWith ih power

end Grammar.Parallel

end Script
