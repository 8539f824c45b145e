import Script.Proofs.Boundary
import Script.Tree.Equality

/-!
# The height of trees

Expressions stand inside each other in a tree as they do while it is read, but for the
parentheses, which leave no trace, and for the operands and callees on the left, in which the
reading of an expression does not start anew.  The height of a tree counts the others.  What
is read in a given room is at most as high, whatever the grammar is and whatever has been
given up on the way.

## Main definitions

* `Expr.height`, `Stmt.height` — the height of a tree.
* `Step.Ensures` — whatever the step reads has a property.

## Main results

* `Step.ensures_bind`, `Step.ensures_collect`, `Step.ensures_collectWhile`,
  `Step.ensures_fold` — one step after another, and the repetition of a round.
* `Grammar.ensures_expression` — an expression is at most as high as the room it is read in.
* `height_le_maxNesting` — so is what a parser reads, and what a source is parsed as.
-/

namespace Script

/-! ### Height -/

mutual

/-- The height of an expression.  The left operand of an operator and the callee of a call
stand beside what is built on them, and everything else one further in. -/
def Expr.height : Expr → Nat
  | .identifier _ | .integer _ _ | .boolean _ _ => 1
  | .prefixOp _ _ right => 1 + right.height
  | .infixOp _ left _ right => max left.height (1 + right.height)
  | .conditional _ condition consequence alternative =>
    1 + max condition.height (max consequence.height (Expr.heightAlternative alternative))
  | .block _ statements => 1 + Stmt.heightList statements
  | .function _ _ body => 1 + body.height
  | .call _ function arguments => max function.height (1 + Expr.heightList arguments)

/-- The height of the alternative of a choice, if there is one. -/
def Expr.heightAlternative : Option Expr → Nat
  | none => 0
  | some e => e.height

/-- The greatest height among expressions. -/
def Expr.heightList : List Expr → Nat
  | [] => 0
  | e :: es => max e.height (Expr.heightList es)

/-- The height of a statement is that of its expression. -/
def Stmt.height : Stmt → Nat
  | .letBinding _ _ value | .returnValue _ value | .expression _ value => value.height

/-- The greatest height among statements. -/
def Stmt.heightList : List Stmt → Nat
  | [] => 0
  | s :: ss => max s.height (Stmt.heightList ss)

end

theorem Expr.heightList_le_iff {es : List Expr} {n : Nat} :
    Expr.heightList es ≤ n ↔ ∀ e ∈ es, e.height ≤ n := by
  induction es with
  | nil => simp [Expr.heightList]
  | cons e es ih => rw [Expr.heightList, Nat.max_le, ih, List.forall_mem_cons]

theorem Stmt.heightList_le_iff {ss : List Stmt} {n : Nat} :
    Stmt.heightList ss ≤ n ↔ ∀ s ∈ ss, s.height ≤ n := by
  induction ss with
  | nil => simp [Stmt.heightList]
  | cons s ss ih => rw [Stmt.heightList, Nat.max_le, ih, List.forall_mem_cons]

theorem Expr.heightAlternative_le_iff {a : Option Expr} {n : Nat} :
    Expr.heightAlternative a ≤ n ↔ ∀ e ∈ a, e.height ≤ n := by
  cases a with
  | none => simp [Expr.heightAlternative]
  | some e => simp [Expr.heightAlternative]

/-! ### What a step reads -/

namespace Step

variable {α β : Type} {p : α → Prop} {q : β → Prop}

/-- Whatever the step reads has the property. -/
def Ensures (step : Step α) (p : α → Prop) : Prop :=
  ∀ (ts : Tokens) (value : α) (rest : Tokens) (log : List Diagnostic),
    step ts = .ok value rest log → p value

theorem ensures_true (step : Step α) : step.Ensures fun _ => True := fun _ _ _ _ _ => trivial

/-- One step after another: the second one may rely on what the first has read. -/
theorem ensures_bind {first : Step α} {second : α → Step β} (hfirst : first.Ensures p)
    (hsecond : ∀ value, p value → (second value).Ensures q) : (first >>= second).Ensures q := by
  intro ts value rest log h
  obtain ⟨v, mid, log₁, log₂, hv, hvalue, -⟩ := exists_of_bind_eq_ok h
  exact hsecond v (hfirst ts v mid log₁ hv) mid value rest log₂ hvalue

/-- One step after another, where it does not matter what the first one reads. -/
theorem ensures_bind_of_forall {first : Step α} {second : α → Step β}
    (hsecond : ∀ value, (second value).Ensures q) : (first >>= second).Ensures q :=
  ensures_bind (ensures_true first) fun value _ => hsecond value

theorem ensures_pure {value : α} (h : p value) : (pure value : Step α).Ensures p := by
  rintro ts v rest log ⟨⟩
  exact h

theorem ensures_forever : (forever : Step α).Ensures p := nofun

theorem ensures_reject (cause : Fault) : (reject cause : Step α).Ensures p := nofun

theorem ensures_fail (diagnostic : Diagnostic) : (fail diagnostic : Step α).Ensures p := nofun

theorem ensures_attempt {step : Step α} (h : step.Ensures p) :
    (attempt step).Ensures fun result => ∀ value, result = .ok value → p value := by
  rintro ts result rest log hattempt value rfl
  rw [attempt_apply] at hattempt
  split at hattempt
  · next hok =>
    cases hattempt
    exact h _ _ _ _ hok
  · cases hattempt
  · cases hattempt

/-! ### Loops -/

theorem ensures_bounded {loop : Nat → Step α} (h : ∀ rounds, (loop rounds).Ensures p) :
    (bounded loop).Ensures p :=
  fun ts => h _ ts

/-- If every statement that a round reads has the property, so has every one of the loop. -/
theorem ensures_collect {round : Step Round} {p : Stmt → Prop}
    (h : round.Ensures fun value => ∀ s, value = .read s → p s) (rounds : Nat) :
    (collect round rounds).Ensures fun ss => ∀ s ∈ ss, p s := by
  induction rounds with
  | zero => exact ensures_forever
  | succ rounds ih =>
    refine ensures_bind h fun value hvalue => ?_
    cases value with
    | finished => exact ensures_pure (List.forall_mem_nil p)
    | read s =>
      refine ensures_bind ih fun ss hss => ?_
      exact ensures_pure (List.forall_mem_cons.2 ⟨hvalue s rfl, hss⟩)
    | skipped => exact ih

/-- If whatever a round reads has the property, so has everything that the loop collects. -/
theorem ensures_collectWhile {round : Step (α × Bool)} (h : round.Ensures fun value => p value.1)
    (rounds : Nat) : (collectWhile round rounds).Ensures fun values => ∀ v ∈ values, p v := by
  induction rounds with
  | zero => exact ensures_forever
  | succ rounds ih =>
    refine ensures_bind h fun (value, more) hvalue => ?_
    cases more with
    | false => exact ensures_pure (List.forall_mem_singleton.2 hvalue)
    | true =>
      refine ensures_bind ih fun values hvalues => ?_
      exact ensures_pure (List.forall_mem_cons.2 ⟨hvalue, hvalues⟩)

/-- If a round keeps the property of what it goes on from, so does the loop. -/
theorem ensures_fold {round : α → Step (Option α)}
    (h : ∀ value, p value → (round value).Ensures fun next => ∀ v ∈ next, p v) (rounds : Nat) :
    ∀ {value : α}, p value → (fold round rounds value).Ensures p := by
  induction rounds with
  | zero => exact fun _ => ensures_forever
  | succ rounds ih =>
    intro value hvalue
    refine ensures_bind (h value hvalue) fun next hnext => ?_
    cases next with
    | none => exact ensures_pure hvalue
    | some v => exact ih (hnext v rfl)

end Step

/-! ### The rules -/

section

open Step

variable {expr : ExprReader} {stmt : Step Stmt} {n : Nat}

namespace Rule

theorem ensures_identifier : (identifier : Step Expr).Ensures fun e => e.height ≤ n + 1 :=
  ensures_bind_of_forall fun _ => ensures_pure (Nat.le_add_left 1 n)

theorem ensures_integer : (integer : Step Expr).Ensures fun e => e.height ≤ n + 1 := by
  refine ensures_bind_of_forall fun token => ?_
  split
  · exact ensures_pure (Nat.le_add_left 1 n)
  · exact ensures_reject _

theorem ensures_boolean : (boolean : Step Expr).Ensures fun e => e.height ≤ n + 1 :=
  ensures_bind_of_forall fun _ => ensures_pure (Nat.le_add_left 1 n)

/-- Whatever has been given up between them, the statements that a block keeps have been read. -/
theorem ensures_blockRound {p : Stmt → Prop} (h : stmt.Ensures p) :
    (blockRound stmt).Ensures fun value => ∀ s, value = .read s → p s := by
  refine ensures_bind_of_forall fun token => ?_
  split
  · exact ensures_pure nofun
  · split
    · exact ensures_reject _
    · refine ensures_bind (ensures_attempt h) fun result hresult => ?_
      cases result with
      | ok s =>
        refine ensures_bind_of_forall fun _ => ensures_pure ?_
        rintro _ ⟨⟩
        exact hresult s rfl
      | error diagnostic =>
        dsimp only
        split
        · exact ensures_fail _
        · refine ensures_bind_of_forall fun _ => ?_
          exact ensures_bind_of_forall fun _ => ensures_pure nofun

theorem ensures_block (h : stmt.Ensures fun s => s.height ≤ n) :
    (block stmt).Ensures fun e => e.height ≤ n + 1 := by
  refine ensures_bind_of_forall fun token => ?_
  rw [blockStatements_eq_collect]
  refine ensures_bind (ensures_bounded (ensures_collect (ensures_blockRound h))) fun ss hss => ?_
  refine ensures_pure ?_
  rw [Expr.height, Nat.add_comm]
  exact Nat.succ_le_succ (Stmt.heightList_le_iff.2 hss)

end Rule

section

variable (h : ∀ power, (expr power).Ensures fun e => e.height ≤ n)

include h

namespace Rule

/-- The operand stands one further in than the operator. -/
theorem ensures_prefixOp : (prefixOp expr).Ensures fun e => e.height ≤ n + 1 := by
  refine ensures_bind_of_forall fun token => ?_
  refine ensures_bind (h .unary) fun right hright => ensures_pure ?_
  rw [Expr.height]
  omega

/-- The left operand stands beside the operator. -/
theorem ensures_infixOp {left : Expr} (hleft : left.height ≤ n + 1) (power : BindingPower) :
    (infixOp expr left power).Ensures fun e => e.height ≤ n + 1 := by
  refine ensures_bind_of_forall fun token => ?_
  refine ensures_bind (h power) fun right hright => ensures_pure ?_
  rw [Expr.height]
  omega

theorem ensures_grouping : (grouping expr).Ensures fun e => e.height ≤ n + 1 := by
  refine ensures_bind_of_forall fun paren => ?_
  refine ensures_bind (h .lowest) fun inner hinner => ?_
  exact ensures_bind_of_forall fun close => ensures_pure (Nat.le_succ_of_le hinner)

theorem ensures_alternative : (alternative expr).Ensures fun a => ∀ e ∈ a, e.height ≤ n := by
  refine ensures_bind_of_forall fun token => ?_
  split
  · refine ensures_bind_of_forall fun _ => ensures_bind_of_forall fun _ => ?_
    refine ensures_bind (h .lowest) fun value hvalue => ensures_pure ?_
    rintro _ ⟨⟩
    exact hvalue
  · exact ensures_pure nofun

theorem ensures_conditional : (conditional expr).Ensures fun e => e.height ≤ n + 1 := by
  refine ensures_bind_of_forall fun token => ?_
  refine ensures_bind (h .lowest) fun condition hcondition => ?_
  refine ensures_bind_of_forall fun _ => ?_
  refine ensures_bind (h .lowest) fun consequence hconsequence => ?_
  refine ensures_bind (ensures_alternative h) fun otherwise hotherwise => ensures_pure ?_
  have halternative := Expr.heightAlternative_le_iff.2 hotherwise
  rw [Expr.height]
  omega

theorem ensures_function : (function expr).Ensures fun e => e.height ≤ n + 1 := by
  refine ensures_bind_of_forall fun token => ensures_bind_of_forall fun _ => ?_
  refine ensures_bind_of_forall fun names => ensures_bind_of_forall fun _ => ?_
  refine ensures_bind (h .lowest) fun body hbody => ensures_pure ?_
  rw [Expr.height]
  omega

theorem ensures_arguments : (arguments expr).Ensures fun es => ∀ e ∈ es, e.height ≤ n := by
  refine ensures_bind_of_forall fun ahead => ?_
  split
  · exact ensures_bind_of_forall fun _ => ensures_pure (List.forall_mem_nil _)
  · rw [argumentValues_eq_collectWhile]
    have hround : (valueRound expr).Ensures fun value => value.1.height ≤ n := by
      refine ensures_bind_of_forall fun _ => ?_
      refine ensures_bind (h .lowest) fun value hvalue => ?_
      refine ensures_bind_of_forall fun ahead => ?_
      split
      · exact ensures_bind_of_forall fun _ => ensures_pure hvalue
      · exact ensures_pure hvalue
    have hloop := ensures_collectWhile (p := fun e : Expr => e.height ≤ n) hround
    refine ensures_bind (ensures_bounded hloop) fun values hvalues => ?_
    exact ensures_bind_of_forall fun _ => ensures_pure hvalues

/-- The callee stands beside the call. -/
theorem ensures_call {callee : Expr} (hcallee : callee.height ≤ n + 1) :
    (call expr callee).Ensures fun e => e.height ≤ n + 1 := by
  refine ensures_bind_of_forall fun token => ?_
  refine ensures_bind (ensures_arguments h) fun values hvalues => ensures_pure ?_
  have hlist := Expr.heightList_le_iff.2 hvalues
  rw [Expr.height]
  omega

end Rule

theorem PrefixRule.ensures_read (hs : stmt.Ensures fun s => s.height ≤ n) (rule : PrefixRule) :
    (rule.read expr stmt).Ensures fun e => e.height ≤ n + 1 := by
  cases rule with
  | identifier => exact Rule.ensures_identifier
  | integer => exact Rule.ensures_integer
  | boolean => exact Rule.ensures_boolean
  | prefixOp => exact Rule.ensures_prefixOp h
  | grouping => exact Rule.ensures_grouping h
  | block => exact Rule.ensures_block hs
  | conditional => exact Rule.ensures_conditional h
  | function => exact Rule.ensures_function h

theorem InfixRule.ensures_read {left : Expr} (hleft : left.height ≤ n + 1) (power : BindingPower)
    (rule : InfixRule) :
    (rule.read expr left power).Ensures fun e => e.height ≤ n + 1 := by
  cases rule with
  | infixOp => exact Rule.ensures_infixOp h hleft power
  | call => exact Rule.ensures_call h hleft

/-- A statement is as high as its expression. -/
theorem StatementRule.ensures_read (rule : StatementRule) :
    (rule.read expr).Ensures fun s => s.height ≤ n := by
  cases rule with
  | lookup => exact ensures_forever
  | letBinding =>
    refine ensures_bind_of_forall fun _ => ensures_bind_of_forall fun _ => ?_
    refine ensures_bind_of_forall fun _ => ensures_bind_of_forall fun _ => ?_
    refine ensures_bind (h .lowest) fun value hvalue => ?_
    exact ensures_bind_of_forall fun _ => ensures_pure hvalue
  | returnValue =>
    refine ensures_bind_of_forall fun _ => ?_
    refine ensures_bind (h .lowest) fun value hvalue => ?_
    exact ensures_bind_of_forall fun _ => ensures_pure hvalue
  | expression =>
    refine ensures_bind_of_forall fun _ => ?_
    refine ensures_bind (h .lowest) fun value hvalue => ?_
    exact ensures_bind_of_forall fun _ => ensures_pure hvalue

/-! ### Reading by a grammar -/

namespace Grammar

theorem ensures_statementWith (g : Grammar) :
    (g.statementWith expr).Ensures fun s => s.height ≤ n :=
  ensures_bind_of_forall fun _ => StatementRule.ensures_read h _

theorem ensures_operatorRound (g : Grammar) (power : BindingPower) {left : Expr}
    (hleft : left.height ≤ n + 1) :
    (g.operatorRound expr power left).Ensures fun next => ∀ e ∈ next, e.height ≤ n + 1 := by
  refine ensures_bind_of_forall fun ahead => ?_
  split
  · exact ensures_pure nofun
  · next continuation _ =>
    refine ensures_bind_of_forall fun _ => ?_
    refine ensures_bind (continuation.rule.ensures_read h hleft _) fun e he => ensures_pure ?_
    rintro _ ⟨⟩
    exact he

/-- What stands in an expression is read in the room behind it; its left operands and callees
have been read as parts of the expression itself. -/
theorem ensures_expressionWith (g : Grammar) (power : BindingPower) :
    (g.expressionWith expr power).Ensures fun e => e.height ≤ n + 1 := by
  refine ensures_bind_of_forall fun token => ?_
  split
  · exact ensures_reject _
  · next rule _ =>
    refine ensures_bind (rule.ensures_read h (g.ensures_statementWith h)) fun left hleft => ?_
    rw [operators_eq_fold]
    refine ensures_bounded fun rounds => ?_
    exact ensures_fold (fun e he => g.ensures_operatorRound h power he) rounds hleft

end Grammar

end

namespace Grammar

/-- **An expression is at most as high as the room** it is read in, whatever it is read by. -/
theorem ensures_expression (g : Grammar) (room : Nat) (power : BindingPower) :
    (g.expression room power).Ensures fun e => e.height ≤ room := by
  induction room generalizing power with
  | zero => exact ensures_reject _
  | succ room ih => exact g.ensures_expressionWith ih power

theorem ensures_statement (g : Grammar) (room : Nat) :
    (g.statement room).Ensures fun s => s.height ≤ room :=
  g.ensures_statementWith (g.ensures_expression room)

theorem ensures_programRound {p : Stmt → Prop} (h : stmt.Ensures p) :
    (programRound stmt).Ensures fun value => ∀ s, value = .read s → p s := by
  refine ensures_bind_of_forall fun token => ?_
  split
  · exact ensures_pure nofun
  · refine ensures_bind (ensures_attempt h) fun result hresult => ?_
    cases result with
    | ok s =>
      refine ensures_bind_of_forall fun _ => ensures_pure ?_
      rintro _ ⟨⟩
      exact hresult s rfl
    | error diagnostic =>
      refine ensures_bind_of_forall fun _ => ?_
      exact ensures_bind_of_forall fun _ => ensures_pure nofun

end Grammar

end

/-- A value that a parser has read is one that the step has read. -/
theorem Step.Ensures.of_run {α : Type} {step : Step α} {p : α → Prop} (h : step.Ensures p)
    {parser after : Parser} {value : α} (hrun : parser.run step = some (.ok value, after)) :
    p value := by
  unfold Parser.run at hrun
  split at hrun
  · next hok =>
    cases hrun
    exact h _ _ _ _ hok
  · cases hrun
  · cases hrun

/-- **The limit of nesting bounds the trees.**  Whatever its grammar is, an expression that a
parser reads is at most as high as the depth of the parser leaves room for.  The statements
that any source is parsed as, with or without errors, are at most as high as the limit. -/
theorem height_le_maxNesting :
    (∀ (p q : Parser) (power : BindingPower) (e : Expr),
      p.parseExpression power = some (.ok e, q) → e.height ≤ maxNesting - p.depth) ∧
    ∀ source, ∀ s ∈ (parse source).1.statements, s.height ≤ maxNesting := by
  constructor
  · intro p q power e hparse
    exact (p.grammar.ensures_expression p.room power).of_run hparse
  · intro source
    obtain ⟨rest, hparse⟩ := exists_collect_of_parse source
    have hround := Grammar.ensures_programRound (Grammar.standard.ensures_statement maxNesting)
    exact Step.ensures_bounded (Step.ensures_collect hround) _ _ _ _ hparse

/-- The bound is reached by an operator with an operand, where there is room for just these. -/
theorem height_le_maxNesting_negation :
    let p : Parser := { Parser.ofString "!x" with depth := 62 }
    let q : Parser := { p with tokens := [⟨.ident, "x"⟩] }
    let e : Expr := .prefixOp ⟨.bang, "!"⟩ "!" (.identifier (.ofToken ⟨.ident, "x"⟩))
    p.parseExpression .lowest = some (.ok e, q) ∧
      e.height ≤ maxNesting - p.depth ∧ maxNesting - p.depth ≤ e.height := by
  intro p q e
  have hread : Grammar.standard.expression 2 .lowest p.tokens =
      .ok e [⟨.ident, "x"⟩] [] := by decide +kernel
  have hparse : p.parseExpression .lowest = some (.ok e, q) := by
    show p.run (Grammar.standard.expression 2 .lowest) = _
    unfold Parser.run
    rw [hread]
    rfl
  exact ⟨hparse, height_le_maxNesting.1 p q .lowest e hparse, by decide⟩

end Script
