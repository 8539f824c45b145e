import Script.Grammar.Reading

/-!
# Reading side by side

The rules say which single moves are made and in which order, and not who makes them.  So two
ways to read can be compared rule by rule, whatever they keep in their states.  A relation
between them is kept by all rules if it is kept by sequencing and by loops, holds of each single
move, and is kept by a round over the statements of a block, which is the only place where a rule
looks into what has gone wrong.

## Main definitions

* `Reading.Keeps` — the conditions on the relation, but for what goes wrong.
* `Reading.Parallel` — the conditions on the relation.
* `Reading.Transparent` — the conditions on a relation that hides nothing of what goes wrong, so
  that it is kept by whatever looks into this.
* `Rule.rescue` — the part of a round that does so in a block.

## Main results

* `Reading.Transparent.parallel` — this is enough for a round over the statements of a block.
* `Reading.Parallel.prefixRule`, `Reading.Parallel.infixRule`,
  `Reading.Parallel.statementRule` — **rules whose readers are related are related.**
* `Reading.Transparent.programStatements` — so are programs.
-/

namespace Script

variable {M N : Type → Type} [Reading M] [Reading N] {α β : Type}

/-- Reads a statement of a block and goes on behind it.  A statement that cannot be read is
recorded and skipped, unless it is nested too deeply. -/
def Rule.rescue (stmt : M Stmt) (more : Stmt → M α) (skipped : M α) : M α := do
  match ← Reading.attempt stmt with
  | .ok statement => more statement
  | .error diagnostic =>
    if diagnostic.fault.isNesting then
      Reading.fail diagnostic
    else do
      Reading.record diagnostic
      Reading.synchronize true
      skipped

namespace Reading

/-! ### Relations -/

/-- The relation between two ways to read is kept by sequencing and by loops, and holds of the
single moves.  Where a token is looked at, only those tokens count that can be seen. -/
structure Keeps (seen : Token → Prop) (R : ∀ ⦃α : Type⦄, M α → N α → Prop) : Prop where
  /-- It holds where nothing is read, -/
  pure : ∀ {α : Type} (value : α), R (pure value) (pure value)
  /-- where the current token is taken, -/
  advance : R advance advance
  /-- where a token is expected -/
  expect : ∀ kind, R (expect kind) (expect kind)
  /-- or a `;` may be taken, -/
  skipSemicolon : R skipSemicolon skipSemicolon
  /-- where a statement is skipped, -/
  synchronize : ∀ inBlock, R (synchronize inBlock) (synchronize inBlock)
  /-- and between what runs for ever. -/
  forever : ∀ {α : Type}, R (forever : M α) forever
  /-- It is kept by sequencing, -/
  bind : ∀ {α β : Type} {first : M α} {first' : N α} {second : α → M β} {second' : α → N β},
    R first first' → (∀ value, R (second value) (second' value)) →
      R (first >>= second) (first' >>= second')
  /-- where a token that is looked at need only be one that can be seen, -/
  current_bind : ∀ {α : Type} {second : Token → M α} {second' : Token → N α},
    (∀ t, seen t → R (second t) (second' t)) → R (current >>= second) (current >>= second')
  /-- whether it is the current one or the one ahead, -/
  peek_bind : ∀ {α : Type} {second : Token → M α} {second' : Token → N α},
    (∀ t, seen t → R (second t) (second' t)) → R (peek >>= second) (peek >>= second')
  /-- and by loops. -/
  bounded : ∀ {α : Type} {loop : Nat → M α} {loop' : Nat → N α},
    (∀ n, R (loop n) (loop' n)) → R (bounded loop) (bounded loop')

/-- The relation is kept by what the rules are made of. -/
structure Parallel (seen : Token → Prop) (R : ∀ ⦃α : Type⦄, M α → N α → Prop) : Prop
    extends Keeps seen R where
  /-- It holds where something else than the limit is found at the current token, -/
  reject : ∀ {α : Type} {cause : Fault}, cause.isNesting = false →
    R (reject cause : M α) (reject cause)
  /-- and is kept by a round over the statements of a block. -/
  rescue : ∀ {α : Type} {stmt : M Stmt} {stmt' : N Stmt} {more : Stmt → M α} {more' : Stmt → N α}
    {skipped : M α} {skipped' : N α}, R stmt stmt' → (∀ s, R (more s) (more' s)) →
      R skipped skipped' → R (Rule.rescue stmt more skipped) (Rule.rescue stmt' more' skipped')

/-- The relation is kept by what looks into what has gone wrong, whatever this is. -/
structure Transparent (seen : Token → Prop) (R : ∀ ⦃α : Type⦄, M α → N α → Prop) : Prop
    extends Keeps seen R where
  /-- It holds where a fault is found at the current token, -/
  reject : ∀ {α : Type} (cause : Fault), R (reject cause : M α) (reject cause)
  /-- where a diagnostic is handed on -/
  fail : ∀ {α : Type} (diagnostic : Diagnostic), R (fail diagnostic : M α) (fail diagnostic)
  /-- or recorded, -/
  record : ∀ diagnostic, R (record diagnostic) (record diagnostic)
  /-- and where it is caught. -/
  attempt : ∀ {α : Type} {read : M α} {read' : N α}, R read read' →
    R (attempt read) (attempt read')

variable {seen : Token → Prop} {R : ∀ ⦃α : Type⦄, M α → N α → Prop}

omit [Reading M] [Reading N] in
/-- A choice between two ways to go on does not depend on who reads. -/
theorem related_ite {c : Prop} [Decidable c] {yes no : M α} {yes' no' : N α} (hyes : R yes yes')
    (hno : R no no') : R (if c then yes else no) (if c then yes' else no') := by
  by_cases hc : c
  · simpa only [if_pos hc] using hyes
  · simpa only [if_neg hc] using hno

/-- A statement that is given up inside a block is given up by both, over the same. -/
theorem Transparent.parallel (h : Transparent seen R) : Parallel seen R where
  toKeeps := h.toKeeps
  reject _ := h.reject _
  rescue hstmt hmore hskipped := by
    refine h.bind (h.attempt hstmt) ?_
    intro result
    cases result with
    | ok s => exact hmore s
    | error d =>
      refine related_ite (h.fail d) (h.bind (h.record d) ?_)
      intro _
      exact h.bind (h.synchronize true) fun _ => hskipped

/-- Programs are read alike if their statements are. -/
theorem Transparent.programStatements (h : Transparent seen R) {stmt : M Stmt} {stmt' : N Stmt}
    (hstmt : R stmt stmt') (rounds : Nat) :
    R (Grammar.programStatements stmt rounds) (Grammar.programStatements stmt' rounds) := by
  induction rounds with
  | zero => exact h.forever
  | succ rounds ih =>
    refine h.current_bind ?_
    intro t _
    refine related_ite (h.pure []) (h.bind (h.attempt hstmt) ?_)
    intro result
    cases result with
    | ok s => exact h.bind h.advance fun _ => h.bind ih fun ss => h.pure (s :: ss)
    | error d =>
      refine h.bind (h.record d) ?_
      intro _
      exact h.bind (h.synchronize false) fun _ => ih

namespace Parallel

variable {expr : BindingPower → M Expr} {expr' : BindingPower → N Expr} {stmt : M Stmt}
  {stmt' : N Stmt}

/-! ### Rules that read no expressions -/

section

variable (h : Parallel seen R)

include h

theorem identifier : R Rule.identifier Rule.identifier :=
  h.current_bind fun _ _ => h.pure _

theorem integer : R Rule.integer Rule.integer := by
  refine h.current_bind ?_
  intro t _
  cases Text.integer? t.literal with
  | some value => exact h.pure _
  | none => exact h.reject rfl

theorem boolean : R Rule.boolean Rule.boolean :=
  h.current_bind fun _ _ => h.pure _

theorem parameterNames (rounds : Nat) :
    R (Rule.parameterNames rounds) (Rule.parameterNames rounds) := by
  induction rounds with
  | zero => exact h.forever
  | succ rounds ih =>
    refine h.bind (h.expect .ident) ?_
    intro name
    refine h.peek_bind ?_
    intro t _
    refine related_ite (h.bind h.advance ?_) (h.pure _)
    intro _
    exact h.bind ih fun names => h.pure _

theorem parameters : R Rule.parameters Rule.parameters := by
  refine h.peek_bind ?_
  intro t _
  refine related_ite (h.bind h.advance fun _ => h.pure []) ?_
  refine h.bind (h.bounded h.parameterNames) ?_
  intro names
  exact h.bind (h.expect .rparen) fun _ => h.pure names

/-- A block goes on behind a statement, whether this has been read or skipped. -/
theorem blockStatements (hstmt : R stmt stmt') (rounds : Nat) :
    R (Rule.blockStatements stmt rounds) (Rule.blockStatements stmt' rounds) := by
  induction rounds with
  | zero => exact h.forever
  | succ rounds ih =>
    refine h.current_bind ?_
    intro t _
    refine related_ite (h.pure []) (related_ite (h.reject rfl) (h.rescue hstmt ?_ ih))
    intro s
    exact h.bind h.advance fun _ => h.bind ih fun ss => h.pure (s :: ss)

theorem block (hstmt : R stmt stmt') : R (Rule.block stmt) (Rule.block stmt') := by
  refine h.bind h.advance ?_
  intro token
  exact h.bind (h.bounded (h.blockStatements hstmt)) fun ss => h.pure _

end

/-! ### Rules that read expressions -/

section

variable (h : Parallel seen R) (hexpr : ∀ power, R (expr power) (expr' power))

include h hexpr

/-- An expression that starts behind the current token, and what follows it. -/
theorem advance_expr (power : BindingPower) {second : Token → Expr → M β}
    {second' : Token → Expr → N β} (hsecond : ∀ token e, R (second token e) (second' token e)) :
    R (advance >>= fun token => expr power >>= second token)
      (advance >>= fun token => expr' power >>= second' token) :=
  h.bind h.advance fun token => h.bind (hexpr power) (hsecond token)

theorem prefixOp : R (Rule.prefixOp expr) (Rule.prefixOp expr') :=
  h.advance_expr hexpr .unary fun _ _ => h.pure _

theorem infixOp (left : Expr) (power : BindingPower) :
    R (Rule.infixOp expr left power) (Rule.infixOp expr' left power) :=
  h.advance_expr hexpr power fun _ _ => h.pure _

theorem grouping : R (Rule.grouping expr) (Rule.grouping expr') :=
  h.advance_expr hexpr .lowest fun _ inner => h.bind (h.expect .rparen) fun _ => h.pure inner

theorem alternative : R (Rule.alternative expr) (Rule.alternative expr') := by
  refine h.peek_bind ?_
  intro t _
  refine related_ite (h.bind h.advance ?_) (h.pure none)
  intro _
  exact h.advance_expr hexpr .lowest fun _ value => h.pure _

theorem conditional : R (Rule.conditional expr) (Rule.conditional expr') := by
  refine h.advance_expr hexpr .lowest ?_
  intro token condition
  refine h.advance_expr hexpr .lowest ?_
  intro _ consequence
  exact h.bind (h.alternative hexpr) fun otherwise => h.pure _

theorem function : R (Rule.function expr) (Rule.function expr') := by
  refine h.current_bind ?_
  intro token _
  refine h.bind (h.expect .lparen) ?_
  intro _
  refine h.bind h.parameters ?_
  intro names
  exact h.advance_expr hexpr .lowest fun _ body => h.pure _

theorem argumentValues (rounds : Nat) :
    R (Rule.argumentValues expr rounds) (Rule.argumentValues expr' rounds) := by
  induction rounds with
  | zero => exact h.forever
  | succ rounds ih =>
    refine h.advance_expr hexpr .lowest ?_
    intro _ value
    refine h.peek_bind ?_
    intro t _
    refine related_ite (h.bind h.advance ?_) (h.pure [value])
    intro _
    exact h.bind ih fun values => h.pure _

theorem arguments : R (Rule.arguments expr) (Rule.arguments expr') := by
  refine h.peek_bind ?_
  intro t _
  refine related_ite (h.bind h.advance fun _ => h.pure []) ?_
  refine h.bind (h.bounded (h.argumentValues hexpr)) ?_
  intro values
  exact h.bind (h.expect .rparen) fun _ => h.pure values

theorem call (callee : Expr) : R (Rule.call expr callee) (Rule.call expr' callee) := by
  refine h.current_bind ?_
  intro token _
  exact h.bind (h.arguments hexpr) fun values => h.pure _

/-! ### Rules by name -/

theorem prefixRule (hstmt : R stmt stmt') (rule : PrefixRule) :
    R (rule.read expr stmt) (rule.read expr' stmt') := by
  cases rule with
  | identifier => exact h.identifier
  | integer => exact h.integer
  | boolean => exact h.boolean
  | prefixOp => exact h.prefixOp hexpr
  | grouping => exact h.grouping hexpr
  | block => exact h.block hstmt
  | conditional => exact h.conditional hexpr
  | function => exact h.function hexpr

theorem infixRule (left : Expr) (power : BindingPower) (rule : InfixRule) :
    R (rule.read expr left power) (rule.read expr' left power) := by
  cases rule with
  | infixOp => exact h.infixOp hexpr left power
  | call => exact h.call hexpr left

theorem statementRule (rule : StatementRule) : R (rule.read expr) (rule.read expr') := by
  have hends (s : Stmt) : R (skipSemicolon >>= fun _ => (Pure.pure s : M Stmt))
      (skipSemicolon >>= fun _ => Pure.pure s) :=
    h.bind h.skipSemicolon fun _ => h.pure s
  cases rule with
  | lookup => exact h.forever
  | letBinding =>
    refine h.current_bind ?_
    intro token _
    refine h.bind (h.expect .ident) ?_
    intro name
    refine h.bind (h.expect .assign) ?_
    intro _
    exact h.advance_expr hexpr .lowest fun _ value => hends _
  | returnValue => exact h.advance_expr hexpr .lowest fun _ value => hends _
  | expression =>
    refine h.current_bind ?_
    intro token _
    exact h.bind (hexpr .lowest) fun value => hends _

end

end Parallel

end Reading

end Script
