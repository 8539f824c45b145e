import Script.Proofs.Chain
import Script.Proofs.Phrase

/-!
# Chains are read as their trees

A chain is read from left to right, and the operand behind an operator takes with it
the operators that bind tighter.  What is read that way is the tree of the chain.  The
invariant of the loop is that no operator that it has passed binds less tight than the
next one: then the next one is the rightmost of the weakest so far, and the tree of the
operations up to it stands on its left.

## Main definitions

* `ReadsThrough`, `ReadsOperand` — tokens are read as an expression together with
  whatever goes on with it.
* `ReadsOperations` — tokens are those of a row of operations.
* `Operation.Passed` — the invariant of the loop.

## Main results

* `ReadsOperations.operators` — the loop reads a row of operations.
* `Chain.reads` — a chain is read as its tree.
-/

namespace Script

open Grammar

variable {g : Grammar} {n m : Nat} {ts us : Tokens} {e : Expr}

/-! ### Operands -/

/-- The tokens are read as the expression, at most `n` deep, and whatever goes on with
the expression goes on behind them. -/
def ReadsThrough (g : Grammar) (n : Nat) (ts : Tokens) (e : Expr) : Prop :=
  ∀ ⦃power : BindingPower⦄ ⦃e' : Expr⦄ ⦃m : Nat⦄ ⦃rest rest' : Tokens⦄, power < .call →
    Reads g (.operators power e e') m rest rest' →
    ∃ k, k ≤ max n (m + 1) ∧ Reads g (.expr power e') k (ts ++ rest) rest'

/-- The same where no argument list follows: it would go on with the end of the
operand, and not with the whole of it. -/
def ReadsOperand (g : Grammar) (n : Nat) (ts : Tokens) (e : Expr) : Prop :=
  ∀ ⦃power : BindingPower⦄ ⦃e' : Expr⦄ ⦃m : Nat⦄ ⦃rest rest' : Tokens⦄, power < .call →
    g.continuesAt? .unary rest.current = none → Reads g (.operators power e e') m rest rest' →
    ∃ k, k ≤ max n (m + 1) ∧ Reads g (.expr power e') k (ts ++ rest) rest'

theorem ReadsThrough.readsOperand (h : ReadsThrough g n ts e) : ReadsOperand g n ts e :=
  fun _ _ _ _ _ hpower _ hmore => h hpower hmore

theorem ReadsOperand.mono (h : ReadsOperand g n ts e) (hle : n ≤ m) : ReadsOperand g m ts e := by
  intro power e' k rest rest' hpower hstop hmore
  obtain ⟨l, hl, hread⟩ := h hpower hstop hmore
  exact ⟨l, by omega, hread⟩

/-- The tokens of an operator are those of its operand and itself. -/
theorem ReadsOperand.prefixOp {t : Token} (h : ReadsOperand g n ts e) (hn : 1 ≤ n)
    (hrule : g.prefixRule t.kind = some .prefixOp) :
    ReadsOperand g (n + 1) (t :: ts) (.prefixOp t t.literal e) := by
  intro power e' m rest rest' _ hstop hmore
  -- the operand ends where no argument list follows, and the rest goes on with the whole
  obtain ⟨k, hk, hread⟩ := h (show BindingPower.unary < .call by decide) hstop (.stop hstop)
  exact ⟨_, by omega, .expr (.prefixOp hrule hread) hmore⟩

/-! ### Rows of operations -/

/-- The tokens are those of the operations, one after the other, and each operand is
read at most `n` deep. -/
inductive ReadsOperations (g : Grammar) (n : Nat) : List Operation → Tokens → Prop where
  /-- There are no more operations. -/
  | nil : ReadsOperations g n [] []
  /-- An operation and those behind it. -/
  | cons {x : Operation} {xs : List Operation} {us vs : Tokens}
      (hoperator : x.operator.kind ∈ Kind.infixKinds) (hoperand : ReadsOperand g n us x.operand)
      (h : ReadsOperations g n xs vs) : ReadsOperations g n (x :: xs) (x.operator :: (us ++ vs))

namespace ReadsOperations

variable {xs ys : List Operation} {vs rest : Tokens} {power : BindingPower}

theorem mono (h : ReadsOperations g n xs vs) (hle : n ≤ m) : ReadsOperations g m xs vs := by
  induction h with
  | nil => exact .nil
  | cons hoperator hoperand _ ih => exact .cons hoperator (hoperand.mono hle) ih

/-- A row can be parted, and its tokens with it. -/
theorem of_append (h : ReadsOperations g n (xs ++ ys) vs) :
    ∃ us ws, vs = us ++ ws ∧ ReadsOperations g n xs us ∧ ReadsOperations g n ys ws := by
  induction xs generalizing vs with
  | nil => exact ⟨[], vs, rfl, .nil, h⟩
  | cons x xs ih =>
    rw [List.cons_append] at h
    cases h with
    | @cons _ _ us vs hoperator hoperand h =>
      obtain ⟨us', ws, rfl, hxs, hys⟩ := ih h
      refine ⟨x.operator :: (us ++ us'), ws, ?_, .cons hoperator hoperand hxs, hys⟩
      rw [List.cons_append, List.append_assoc]

/-- An expression does not go on at the operations behind it, if the first of them does
not bind tighter, and what follows the operations does not either. -/
theorem continuesAt?_eq_none (h : ReadsOperations g n xs vs)
    (hfirst : ∀ x ∈ xs.head?, x.binds g.bindingPower ≤ power)
    (hstop : g.continuesAt? power rest.current = none) :
    g.continuesAt? power (vs ++ rest).current = none := by
  cases h with
  | nil => exact hstop
  | @cons x xs us vs hoperator hoperand h => exact continuesAt?_of_power_le (hfirst x rfl)

/-- No operator between operands is read by the operand before it. -/
theorem continuesAt?_unary (hg : g.Repowered) (h : ReadsOperations g n xs vs)
    (hstop : g.continuesAt? .unary rest.current = none) :
    g.continuesAt? .unary (vs ++ rest).current = none := by
  refine h.continuesAt?_eq_none ?_ hstop
  intro x hx
  cases h with
  | nil => cases hx
  | @cons y xs us vs hoperator hoperand h =>
    obtain rfl : y = x := Option.some.inj hx
    exact Nat.le_trans (hg.bindingPower_bounds hoperator).2 (by decide)

/-- The operators of a row bind tighter than nothing at all. -/
theorem lowest_lt_binds (hg : g.Repowered) (h : ReadsOperations g n xs vs) :
    ∀ x ∈ xs, .lowest < x.binds g.bindingPower := by
  induction h with
  | nil => exact List.forall_mem_nil _
  | cons hoperator _ _ ih =>
    rw [List.forall_mem_cons]
    exact ⟨Nat.lt_of_lt_of_le Nat.zero_lt_one (hg.bindingPower_bounds hoperator).1, ih⟩

end ReadsOperations

namespace Operation

variable {power : Kind → BindingPower}

/-- A row parts where an operator binds no tighter than the power for the first time. -/
theorem exists_append (power : Kind → BindingPower) (q : BindingPower) (xs : List Operation) :
    ∃ ys zs, xs = ys ++ zs ∧ (∀ y ∈ ys, q < y.binds power) ∧
      ∀ z ∈ zs.head?, z.binds power ≤ q := by
  induction xs with
  | nil => exact ⟨[], [], rfl, List.forall_mem_nil _, fun z hz => by cases hz⟩
  | cons x xs ih =>
    obtain ⟨ys, zs, rfl, hys, hzs⟩ := ih
    by_cases h : q < x.binds power
    · refine ⟨x :: ys, zs, rfl, ?_, hzs⟩
      rw [List.forall_mem_cons]
      exact ⟨h, hys⟩
    · refine ⟨[], x :: (ys ++ zs), rfl, List.forall_mem_nil _, ?_⟩
      intro z hz
      obtain rfl : x = z := Option.some.inj hz
      exact Nat.le_of_not_lt h

/-- The operations `ws` have been passed on the way to `ys`: none of them binds less
tight than the next one. -/
def Passed (power : Kind → BindingPower) (ws ys : List Operation) : Prop :=
  ∀ y ∈ ys.head?, ∀ w ∈ ws, y.binds power ≤ w.binds power

theorem passed_nil (ys : List Operation) : Passed power [] ys := fun _ _ => List.forall_mem_nil _

/-- An operation is passed together with those that its operand takes. -/
theorem Passed.append {x : Operation} {ws xs ins outs : List Operation}
    (h : Passed power ws (x :: xs)) (hins : ∀ y ∈ ins, x.binds power < y.binds power)
    (houts : ∀ y ∈ outs.head?, y.binds power ≤ x.binds power) :
    Passed power (ws ++ x :: ins) outs := by
  intro y hy w hw
  refine Nat.le_trans (houts y hy) ?_
  rcases List.mem_append.1 hw with hw | hw
  · exact h x rfl w hw
  · rcases List.mem_cons.1 hw with rfl | hw
    · exact Nat.le_refl _
    · exact Nat.le_of_lt (hins w hw)

/-- The operation behind those that have been passed stands above them in the tree. -/
theorem Passed.tree_append {x : Operation} {ws xs ins : List Operation}
    (h : Passed power ws (x :: xs)) (hins : ∀ y ∈ ins, x.binds power < y.binds power)
    (first : Expr) : tree power first (ws ++ x :: ins) =
      .infixOp x.operator (tree power first ws) x.operator.literal (tree power x.operand ins) :=
  tree_append_cons ⟨h x rfl, hins⟩ first

end Operation

/-! ### The loop -/

open Operation in
/-- **The loop over a row of operations.**  The operations `ws` have been passed, and
the operations `ys` are read, which all bind tighter than the power.  What is read is
the tree of all of them, and the depth grows by at most one for every power that is
left. -/
theorem ReadsOperations.operators (hg : g.Repowered) (hn : 1 ≤ n) {rounds : Nat}
    {ys : List Operation} (hrounds : ys.length ≤ rounds) {power : BindingPower} {vs rest : Tokens}
    (first : Expr) (ws : List Operation) (h : ReadsOperations g n ys vs)
    (hys : ∀ y ∈ ys, power < y.binds g.bindingPower) (hws : Passed g.bindingPower ws ys)
    (hstop : g.continuesAt? power rest.current = none) :
    ∃ k, k < n + (BindingPower.multiplicative.rank - power.rank) ∧
      Reads g (.operators power (tree g.bindingPower first ws)
        (tree g.bindingPower first (ws ++ ys))) k (vs ++ rest) rest := by
  induction rounds generalizing ys power vs rest ws first with
  | zero =>
    obtain rfl := List.length_eq_zero_iff.1 (Nat.le_zero.1 hrounds)
    cases h
    rw [List.append_nil]
    exact ⟨0, by omega, .stop hstop⟩
  | succ rounds ih =>
    cases h with
    | nil =>
      rw [List.append_nil]
      exact ⟨0, by omega, .stop hstop⟩
    | @cons x xs us vs hoperator hoperand hxs =>
      have hpower : power < x.binds g.bindingPower := hys x List.mem_cons_self
      have hbound : x.binds g.bindingPower ≤ .multiplicative := (hg.bindingPower_bounds hoperator).2
      -- the operand takes the operations that bind tighter than its operator
      obtain ⟨ins, outs, rfl, hins, houts⟩ :=
        exists_append g.bindingPower (x.binds g.bindingPower) xs
      obtain ⟨vi, vo, rfl, hvi, hvo⟩ := hxs.of_append
      have hlength : ins.length ≤ rounds ∧ outs.length ≤ rounds := by
        rw [List.length_cons, List.length_append] at hrounds
        omega
      have hstop' : g.continuesAt? (x.binds g.bindingPower) (vo ++ rest).current = none :=
        hvo.continuesAt?_eq_none houts (continuesAt?_of_le hstop (Nat.le_of_lt hpower))
      obtain ⟨k, hk, hinner⟩ := ih hlength.1 x.operand [] hvi hins (passed_nil ins) hstop'
      rw [tree_nil, List.nil_append] at hinner
      have hunary : g.continuesAt? .unary (vi ++ (vo ++ rest)).current = none :=
        hvi.continuesAt?_unary hg
          (continuesAt?_of_le hstop' (Nat.le_trans hbound (by decide)))
      obtain ⟨l, hl, hright⟩ := hoperand (Nat.lt_of_le_of_lt hbound (by decide)) hunary hinner
      -- what has been read so far is the tree of the operations that have been passed
      have houts' : ∀ y ∈ outs, power < y.binds g.bindingPower := by
        intro y hy
        exact hys y (List.mem_cons_of_mem x (List.mem_append_right ins hy))
      obtain ⟨m, hm, hmore⟩ :=
        ih hlength.2 first (ws ++ x :: ins) hvo houts' (hws.append hins houts) hstop
      rw [hws.tree_append hins, List.append_assoc, List.cons_append] at hmore
      have hgoes := hg.continuesAt? hoperator hpower
      refine ⟨max l m, ?_, ?_⟩
      · -- the operand is read with a higher power, and so takes less room than the loop
        have hrank : power.rank < (x.binds g.bindingPower).rank := hpower
        have hrank' : (x.binds g.bindingPower).rank ≤ BindingPower.multiplicative.rank := hbound
        omega
      · rw [List.cons_append, List.append_assoc, List.append_assoc]
        exact .infixOp hgoes hright hmore

/-- The tokens of a first operand and of the operations behind it are read as their tree,
wherever an expression ends that binds tighter than the power. -/
theorem ReadsOperand.expr (hg : g.Repowered) (hn : 1 ≤ n) (hoperand : ReadsOperand g n ts e)
    {ys : List Operation} {vs rest : Tokens} {power : BindingPower}
    (hpower : power ≤ .multiplicative) (h : ReadsOperations g n ys vs)
    (hys : ∀ y ∈ ys, power < y.binds g.bindingPower)
    (hstop : g.continuesAt? power rest.current = none) :
    ∃ k, k ≤ n + (BindingPower.multiplicative.rank - power.rank) ∧
      Reads g (.expr power (Operation.tree g.bindingPower e ys)) k (ts ++ (vs ++ rest)) rest := by
  obtain ⟨m, hm, hmore⟩ := h.operators hg hn (Nat.le_refl _) e [] hys
    (Operation.passed_nil ys) hstop
  rw [Operation.tree_nil, List.nil_append] at hmore
  have hunary : g.continuesAt? .unary (vs ++ rest).current = none :=
    h.continuesAt?_unary hg (continuesAt?_of_le hstop (Nat.le_trans hpower (by decide)))
  obtain ⟨k, hk, hread⟩ := hoperand (Nat.lt_of_le_of_lt hpower (by decide)) hunary hmore
  exact ⟨k, by omega, hread⟩

/-! ### Chains -/

/-- The tokens of the chain are read as its first operand and the operations behind it. -/
def Chain.ReadsParts (g : Grammar) (c : Chain) : Prop :=
  ∃ us vs, c.tokens = us ++ vs ∧ ReadsOperand g c.depth us (c.first g.bindingPower) ∧
    ReadsOperations g c.depth (c.operations g.bindingPower) vs

/-- A chain that is read in parts is read as its tree. -/
theorem Chain.ReadsParts.reads (hg : g.Repowered) {c : Chain} (h : c.ReadsParts g) {rest : Tokens}
    (hstop : g.continuesAt? .lowest rest.current = none) :
    ∃ k, k ≤ c.depth + BindingPower.multiplicative.rank ∧
      Reads g (.expr .lowest (c.tree g.bindingPower)) k (c.tokens ++ rest) rest := by
  obtain ⟨us, vs, htokens, hfirst, hoperations⟩ := h
  rw [htokens, List.append_assoc]
  exact hfirst.expr hg c.depth_pos (by decide) hoperations (hoperations.lowest_lt_binds hg) hstop

theorem Grammar.Repowered.continuesAt?_of_other (hg : g.Repowered) {power : BindingPower}
    {t : Token} (hkind : t.kind ∉ Kind.infixKinds) (hnone : standard.continuation t.kind = none) :
    g.continuesAt? power t = none :=
  continuesAt?_of_none (by rw [hg.others t.kind hkind, hnone])

theorem Grammar.Repowered.continuesAt?_closeParen (hg : g.Repowered) {power : BindingPower} :
    g.continuesAt? power Token.closeParen = none :=
  hg.continuesAt?_of_other (by decide) rfl

theorem Grammar.Repowered.continuesAt?_comma (hg : g.Repowered) {power : BindingPower} :
    g.continuesAt? power Token.comma = none :=
  hg.continuesAt?_of_other (by decide) rfl

/-- A single token is read as the expression that it starts. -/
theorem ReadsThrough.of_token {t : Token} (h : ∀ rest, Reads g (.start e) 0 (t :: rest) rest) :
    ReadsThrough g 1 [t] e := by
  intro power e' m rest rest' _ hmore
  exact ⟨_, by omega, .expr (h rest) hmore⟩

theorem ReadsThrough.parens (hg : g.Repowered) {c : Chain} (h : c.ReadsParts g) :
    ReadsThrough g (c.depth + BindingPower.multiplicative.rank + 1)
      (Token.openParen :: (c.tokens ++ [Token.closeParen])) (c.tree g.bindingPower) := by
  intro power e' m rest rest' _ hmore
  have hend : g.continuesAt? .lowest (Tokens.current (Token.closeParen :: rest)) = none :=
    hg.continuesAt?_closeParen
  obtain ⟨k, hk, hread⟩ := h.reads hg hend
  have hrule : g.prefixRule Token.openParen.kind = some .grouping := by rw [hg.prefixRule]; rfl
  have hclose : Token.closeParen.kind = .rparen := rfl
  refine ⟨max k m + 1, by omega, ?_⟩
  rw [List.cons_append, List.append_assoc]
  exact .expr (.grouping hrule hread hclose) hmore

theorem ReadsThrough.call (hg : g.Repowered) {f : Expr} (hf : ReadsThrough g n ts f)
    {es : List Expr} (hes : ∀ rest, ∃ k, k ≤ m ∧
      Reads g (.arguments es) k (us ++ Token.closeParen :: rest) rest) :
    ReadsThrough g (max n (m + 1)) (ts ++ Token.openParen :: (us ++ [Token.closeParen]))
      (.call Token.openParen f es) := by
  intro power e' l rest rest' hpower hmore
  have hrule : g.continuation Token.openParen.kind = some ⟨.call, .call⟩ := by
    rw [hg.others _ (by decide)]
    rfl
  have hgoes : g.continuesAt? power Token.openParen = some ⟨.call, .call⟩ :=
    continuesAt?_of_some hrule hpower (by decide)
  obtain ⟨k, hk, harguments⟩ := hes rest
  -- the argument list goes on with the callee, and what follows it with the call
  obtain ⟨i, hi, hread⟩ := hf hpower (.call hgoes harguments hmore)
  refine ⟨i, by omega, ?_⟩
  rwa [List.append_assoc, List.cons_append, List.append_assoc]

mutual

/-- A chain is read as its first operand and the operations behind it. -/
theorem Chain.readsParts (hg : g.Repowered) : ∀ c : Chain, c.WellFormed → c.ReadsParts g
  | .operand a, h => by
    rw [Chain.WellFormed] at h
    exact ⟨a.tokens, [], (List.append_nil _).symm, a.readsOperand hg h, .nil⟩
  | .infixOp a t c, h => by
    rw [Chain.WellFormed] at h
    obtain ⟨ha, ht, hc⟩ := h
    obtain ⟨us, vs, htokens, hfirst, hoperations⟩ := c.readsParts hg hc
    have hleft : a.depth ≤ max a.depth c.depth := Nat.le_max_left a.depth c.depth
    have hright : c.depth ≤ max a.depth c.depth := Nat.le_max_right a.depth c.depth
    refine ⟨a.tokens, t :: (us ++ vs), ?_, (a.readsOperand hg ha).mono hleft,
      .cons ht (hfirst.mono hright) (hoperations.mono hright)⟩
    rw [Chain.tokens, htokens]

/-- An operand is read as its tree. -/
theorem Operand.readsOperand (hg : g.Repowered) : ∀ a : Operand, a.WellFormed →
    ReadsOperand g a.depth a.tokens (a.tree g.bindingPower)
  | .primary x, h => by
    rw [Operand.WellFormed] at h
    exact (x.readsThrough hg h).readsOperand
  | .prefixOp t a, h => by
    rw [Operand.WellFormed] at h
    have hrule : g.prefixRule t.kind = some .prefixOp := by
      rw [hg.prefixRule]
      exact standard_prefix h.1
    exact (a.readsOperand hg h.2).prefixOp a.depth_pos hrule

/-- A primary is read as its tree. -/
theorem Primary.readsThrough (hg : g.Repowered) : ∀ x : Primary, x.WellFormed →
    ReadsThrough g x.depth x.tokens (x.tree g.bindingPower)
  | .identifier name, h => by
    rw [Primary.WellFormed] at h
    have hname : name = .ofToken name.token := congrArg (Identifier.mk name.token) h.2
    have hrule : g.prefixRule name.token.kind = some .identifier := by
      rw [hg.prefixRule, h.1]
      rfl
    rw [Primary.tree, hname]
    exact .of_token fun rest => .identifier hrule
  | .integer t v, h => by
    rw [Primary.WellFormed] at h
    have hrule : g.prefixRule t.kind = some .integer := by
      rw [hg.prefixRule, h.1]
      rfl
    exact .of_token fun rest => .integer hrule h.2
  | .boolean t v, h => by
    rw [Primary.WellFormed] at h
    have hrule : g.prefixRule t.kind = some .boolean := by
      rw [hg.prefixRule]
      rcases h with ⟨ht, -⟩ | ⟨ht, -⟩ <;> rw [ht] <;> rfl
    have hv : v = t.is .kwTrue := by
      rcases h with ⟨ht, rfl⟩ | ⟨ht, rfl⟩ <;> simp [Token.is, ht]
    rw [Primary.tree, hv]
    exact .of_token fun rest => .boolean hrule
  | .parens c, h => by
    rw [Primary.WellFormed] at h
    exact .parens hg (c.readsParts hg h)
  | .call x cs, h => by
    rw [Primary.WellFormed] at h
    exact .call hg (x.readsThrough hg h.1) (Chain.reads_arguments hg cs h.2)

/-- The arguments of a call are read as their trees. -/
theorem Chain.reads_arguments (hg : g.Repowered) : ∀ cs : List Chain, Chain.WellFormedList cs →
    ∀ rest, ∃ k, k ≤ Chain.depthList cs ∧
      Reads g (.arguments (Chain.trees g.bindingPower cs)) k
        (Chain.tokensList cs ++ Token.closeParen :: rest) rest
  | [], _, rest => ⟨0, Nat.le_refl 0, .noArguments rfl⟩
  | c :: cs, h, rest => by
    obtain ⟨k, hk, hvalues⟩ := Chain.reads_values hg (c :: cs) h (List.cons_ne_nil c cs) rest
    obtain ⟨rule, hrule⟩ := hvalues.exists_prefixRule_of_values
    rw [hg.prefixRule] at hrule
    exact ⟨k, hk, .someArguments (standard_first hrule).2.1 hvalues rfl⟩

/-- One or more arguments are read as their trees. -/
theorem Chain.reads_values (hg : g.Repowered) : ∀ cs : List Chain, Chain.WellFormedList cs →
    cs ≠ [] → ∀ rest, ∃ k, k ≤ Chain.depthList cs ∧
      Reads g (.values (Chain.trees g.bindingPower cs)) k
        (Chain.tokensList cs ++ Token.closeParen :: rest) (Token.closeParen :: rest)
  | [], _, hne, _ => absurd rfl hne
  | [c], h, _, rest => by
    rw [Chain.WellFormedList] at h
    have hend : g.continuesAt? .lowest (Tokens.current (Token.closeParen :: rest)) = none :=
      hg.continuesAt?_closeParen
    obtain ⟨k, hk, hread⟩ := (c.readsParts hg h.1).reads hg hend
    refine ⟨k, Nat.le_trans hk (Nat.le_max_left _ _), ?_⟩
    rw [Chain.tokensList, Chain.tokensMore, List.append_nil]
    exact .lastValue hread (show Token.closeParen.kind ≠ .comma by decide)
  | c :: c' :: cs, h, _, rest => by
    rw [Chain.WellFormedList] at h
    obtain ⟨l, hl, hmore⟩ := Chain.reads_values hg (c' :: cs) h.2 (List.cons_ne_nil c' cs) rest
    have hend : g.continuesAt? .lowest (Tokens.current (Token.comma ::
        (Chain.tokensList (c' :: cs) ++ Token.closeParen :: rest))) = none :=
      hg.continuesAt?_comma
    obtain ⟨k, hk, hread⟩ := (c.readsParts hg h.1).reads hg hend
    refine ⟨max k l, ?_, ?_⟩
    · rw [Chain.depthList]
      omega
    · rw [Chain.tokensList, Chain.tokensMore, List.append_assoc, List.cons_append]
      exact .moreValues hread rfl hmore

end

/-- A chain is read as its tree, wherever an expression ends. -/
theorem Chain.reads (hg : g.Repowered) {c : Chain} (h : c.WellFormed) {rest : Tokens}
    (hstop : g.continuesAt? .lowest rest.current = none) :
    ∃ k, k ≤ c.depth + BindingPower.multiplicative.rank ∧
      Reads g (.expr .lowest (c.tree g.bindingPower)) k (c.tokens ++ rest) rest :=
  (c.readsParts hg h).reads hg hstop

end Script
