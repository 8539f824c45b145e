import Script.Proofs.Layout

/-!
# Chains of operators

A chain is a row of operands with operators between them.  Which operands belong to
which operator is said by the binding powers alone, without any regard to reading from
left to right: the weakest operator of the chain, and of several the rightmost, stands
at the top of the tree, and the chains on both sides of it are split in the same way.

## Main definitions

* `Operation` — an operator between operands, and the operand behind it.
* `Operation.split?` — a row of operations, split at the rightmost of the weakest.
* `Operation.tree` — the tree of a first operand and the operations behind it.
* `Chain`, `Operand`, `Primary` — chains, with their tokens and their trees.
* `Chain.depth`, `Operand.depth`, `Primary.depth` — bounds of how many expressions stand
  inside each other in an operand.

## Main results

* `Operation.split?_eq_some_iff` — there is only one way to split a row.
* `Operation.tree_append_cons` — the tree of a row that is split.
* `Chain.depth_le_of_isAtom` — long chains of plain operands are not deep.
-/

namespace Script

/-! ### Splitting at the weakest operator -/

/-- An operator between operands, and the operand behind it. -/
structure Operation where
  /-- The operator. -/
  operator : Token
  /-- The operand behind it. -/
  operand : Expr

namespace Operation

variable {power : Kind → BindingPower}

/-- How tightly the operator of an operation binds. -/
def binds (power : Kind → BindingPower) (x : Operation) : BindingPower := power x.operator.kind

/-- A row of operations that is split at one of them. -/
structure Split where
  /-- The operations on the left. -/
  left : List Operation
  /-- The operation at which the row is split. -/
  middle : Operation
  /-- The operations on the right. -/
  right : List Operation

/-- A row of operations, split at the rightmost of its weakest operators. -/
def split? (power : Kind → BindingPower) : List Operation → Option Split
  | [] => none
  | x :: xs =>
    match split? power xs with
    | none => some ⟨[], x, []⟩
    | some s =>
      if s.middle.binds power ≤ x.binds power then some ⟨x :: s.left, s.middle, s.right⟩
      else some ⟨[], x, xs⟩

/-- The operators on the left are not weaker than the one in the middle, and those on
the right are stronger. -/
structure Split.AtWeakest (power : Kind → BindingPower) (s : Split) : Prop where
  /-- The operators on the left are not weaker. -/
  left : ∀ x ∈ s.left, s.middle.binds power ≤ x.binds power
  /-- The operators on the right are stronger. -/
  right : ∀ x ∈ s.right, s.middle.binds power < x.binds power

theorem split?_cons_ne_none (x : Operation) (xs : List Operation) :
    split? power (x :: xs) ≠ none := by
  rw [split?]
  split
  · exact fun h => by cases h
  · split <;> exact fun h => by cases h

/-- A row is split into what it consists of, at the rightmost of its weakest operators. -/
theorem split?_spec {xs : List Operation} {s : Split} (h : split? power xs = some s) :
    xs = s.left ++ s.middle :: s.right ∧ s.AtWeakest power := by
  induction xs generalizing s with
  | nil => cases h
  | cons x xs ih =>
    rw [split?] at h
    cases hs : split? power xs with
    | none =>
      have hxs : xs = [] := by
        cases xs with
        | nil => rfl
        | cons y ys => exact absurd hs (split?_cons_ne_none y ys)
      subst hxs
      rw [hs] at h
      obtain rfl := Option.some.inj h
      exact ⟨rfl, List.forall_mem_nil _, List.forall_mem_nil _⟩
    | some s' =>
      -- the first operator takes the place of the weakest of the others if it is weaker
      obtain ⟨rfl, hweakest⟩ := ih hs
      rw [hs] at h
      dsimp only at h
      by_cases hle : s'.middle.binds power ≤ x.binds power
      · rw [if_pos hle] at h
        obtain rfl := Option.some.inj h
        refine ⟨rfl, ?_, hweakest.right⟩
        intro y hy
        rcases List.mem_cons.1 hy with rfl | hy
        · exact hle
        · exact hweakest.left y hy
      · have hlt : x.binds power < s'.middle.binds power := Nat.lt_of_not_le hle
        rw [if_neg hle] at h
        obtain rfl := Option.some.inj h
        refine ⟨rfl, List.forall_mem_nil _, ?_⟩
        intro y hy
        rcases List.mem_append.1 hy with hy | hy
        · exact Nat.lt_of_lt_of_le hlt (hweakest.left y hy)
        · rcases List.mem_cons.1 hy with rfl | hy
          · exact hlt
          · exact Nat.lt_trans hlt (hweakest.right y hy)

/-- A row that is split at the rightmost of its weakest operators is split there. -/
theorem split?_append_cons {left right : List Operation} {x : Operation}
    (h : (Split.mk left x right).AtWeakest power) :
    split? power (left ++ x :: right) = some ⟨left, x, right⟩ := by
  induction left with
  | nil =>
    rw [List.nil_append, split?]
    cases hs : split? power right with
    | none =>
      cases right with
      | nil => rfl
      | cons y ys => exact absurd hs (split?_cons_ne_none y ys)
    | some s =>
      obtain ⟨hright, -⟩ := split?_spec hs
      have hmem : s.middle ∈ right := by
        rw [hright]
        exact List.mem_append_right _ List.mem_cons_self
      have hstronger : ¬s.middle.binds power ≤ x.binds power :=
        Nat.not_le.2 (h.right s.middle hmem)
      dsimp only
      rw [if_neg hstronger]
  | cons y left ih =>
    have htail := ih ⟨fun z hz => h.left z (List.mem_cons_of_mem y hz), h.right⟩
    have hle : x.binds power ≤ y.binds power := h.left y List.mem_cons_self
    rw [List.cons_append, split?, htail]
    dsimp only
    rw [if_pos hle]

/-- There is one way to split a row at the rightmost of its weakest operators. -/
theorem split?_eq_some_iff {xs : List Operation} {s : Split} :
    split? power xs = some s ↔ xs = s.left ++ s.middle :: s.right ∧ s.AtWeakest power := by
  constructor
  · exact split?_spec
  · rintro ⟨rfl, hweakest⟩
    exact split?_append_cons hweakest

theorem length_of_split? {xs : List Operation} {s : Split} (h : split? power xs = some s) :
    s.left.length < xs.length ∧ s.right.length < xs.length := by
  obtain ⟨rfl, -⟩ := split?_spec h
  rw [List.length_append, List.length_cons]
  omega

/-- The tree of a first operand and the operations behind it: the weakest operator, and
of several the rightmost, stands above the trees of what is on its left and right. -/
def tree (power : Kind → BindingPower) (first : Expr) (xs : List Operation) : Expr :=
  match _h : split? power xs with
  | none => first
  | some s =>
    .infixOp s.middle.operator (tree power first s.left) s.middle.operator.literal
      (tree power s.middle.operand s.right)
termination_by xs.length
decreasing_by
  · exact (length_of_split? _h).1
  · exact (length_of_split? _h).2

@[simp] theorem tree_nil (first : Expr) : tree power first [] = first := by
  rw [tree]
  rfl

theorem tree_append_cons {left right : List Operation} {x : Operation}
    (h : (Split.mk left x right).AtWeakest power) (first : Expr) :
    tree power first (left ++ x :: right) =
      .infixOp x.operator (tree power first left) x.operator.literal
        (tree power x.operand right) := by
  rw [tree]
  split
  · next hnone => rw [split?_append_cons h] at hnone; cases hnone
  · next s hsome =>
    rw [split?_append_cons h] at hsome
    obtain rfl := Option.some.inj hsome
    rfl

end Operation

/-! ### Chains -/

mutual

/-- One or more operands with operators between them. -/
inductive Chain where
  /-- The last operand. -/
  | operand (a : Operand)
  /-- An operand with an operator and more operands behind it. -/
  | infixOp (a : Operand) (t : Token) (c : Chain)

/-- A primary with any number of operators in front of it. -/
inductive Operand where
  /-- A primary with no operator in front of it. -/
  | primary (x : Primary)
  /-- An operator in front of an operand. -/
  | prefixOp (t : Token) (a : Operand)

/-- A name, a number, a truth value or a chain in parentheses, with any number of
argument lists behind it. -/
inductive Primary where
  /-- A name. -/
  | identifier (name : Identifier)
  /-- A number. -/
  | integer (t : Token) (v : Int64)
  /-- A truth value. -/
  | boolean (t : Token) (v : Bool)
  /-- A chain in parentheses. -/
  | parens (c : Chain)
  /-- A primary with an argument list behind it. -/
  | call (x : Primary) (arguments : List Chain)

end

mutual

/-- The tokens of a chain. -/
def Chain.tokens : Chain → Tokens
  | .operand a => a.tokens
  | .infixOp a t c => a.tokens ++ t :: c.tokens

/-- The tokens of an operand. -/
def Operand.tokens : Operand → Tokens
  | .primary x => x.tokens
  | .prefixOp t a => t :: a.tokens

/-- The tokens of a primary. -/
def Primary.tokens : Primary → Tokens
  | .identifier name => [name.token]
  | .integer t _ => [t]
  | .boolean t _ => [t]
  | .parens c => Token.openParen :: (c.tokens ++ [Token.closeParen])
  | .call x arguments =>
    x.tokens ++ Token.openParen :: (Chain.tokensList arguments ++ [Token.closeParen])

/-- The tokens of the chains behind the first one of an argument list. -/
def Chain.tokensMore : List Chain → Tokens
  | [] => []
  | c :: cs => Token.comma :: (c.tokens ++ Chain.tokensMore cs)

/-- The tokens of the chains of an argument list, with commas between them. -/
def Chain.tokensList : List Chain → Tokens
  | [] => []
  | c :: cs => c.tokens ++ Chain.tokensMore cs

end

mutual

/-- The tree of the first operand of a chain. -/
def Chain.first (power : Kind → BindingPower) : Chain → Expr
  | .operand a => a.tree power
  | .infixOp a _ _ => a.tree power

/-- The operations behind the first operand of a chain. -/
def Chain.operations (power : Kind → BindingPower) : Chain → List Operation
  | .operand _ => []
  | .infixOp _ t c => ⟨t, c.first power⟩ :: c.operations power

/-- The tree of an operand: the operators in front of it stand above the primary, the
innermost of them last. -/
def Operand.tree (power : Kind → BindingPower) : Operand → Expr
  | .primary x => x.tree power
  | .prefixOp t a => .prefixOp t t.literal (a.tree power)

/-- The tree of a primary: parentheses leave no node. -/
def Primary.tree (power : Kind → BindingPower) : Primary → Expr
  | .identifier name => .identifier name
  | .integer t v => .integer t v
  | .boolean t v => .boolean t v
  | .parens c => Operation.tree power (c.first power) (c.operations power)
  | .call x arguments => .call Token.openParen (x.tree power) (Chain.trees power arguments)

/-- The trees of the chains of an argument list. -/
def Chain.trees (power : Kind → BindingPower) : List Chain → List Expr
  | [] => []
  | c :: cs => Operation.tree power (c.first power) (c.operations power) :: Chain.trees power cs

end

/-- The tree of a chain. -/
def Chain.tree (power : Kind → BindingPower) (c : Chain) : Expr :=
  Operation.tree power (c.first power) (c.operations power)

mutual

/-- The operators of a chain are operators, and its primaries are what they seem. -/
def Chain.WellFormed : Chain → Prop
  | .operand a => a.WellFormed
  | .infixOp a t c => a.WellFormed ∧ t.kind ∈ Kind.infixKinds ∧ c.WellFormed

/-- The operators in front of a primary are operators, and it is what it seems. -/
def Operand.WellFormed : Operand → Prop
  | .primary x => x.WellFormed
  | .prefixOp t a => t.kind ∈ Kind.prefixKinds ∧ a.WellFormed

/-- The values of names, numbers and truth values are those of their tokens. -/
def Primary.WellFormed : Primary → Prop
  | .identifier name => name.token.kind = .ident ∧ name.value = name.token.literal
  | .integer t v => t.kind = .int ∧ Text.integer? t.literal = some v
  | .boolean t v => (t.kind = .kwTrue ∧ v = true) ∨ (t.kind = .kwFalse ∧ v = false)
  | .parens c => c.WellFormed
  | .call x arguments => x.WellFormed ∧ Chain.WellFormedList arguments

/-- All of the chains are well-formed. -/
def Chain.WellFormedList : List Chain → Prop
  | [] => True
  | c :: cs => c.WellFormed ∧ Chain.WellFormedList cs

end

/-! ### Depth -/

mutual

/-- A bound of how many expressions stand inside each other in an operand of a chain. -/
def Chain.depth : Chain → Nat
  | .operand a => a.depth
  | .infixOp a _ c => max a.depth c.depth

/-- A bound of how many expressions stand inside each other in an operand. -/
def Operand.depth : Operand → Nat
  | .primary x => x.depth
  | .prefixOp _ a => a.depth + 1

/-- A bound of how many expressions stand inside each other in a primary.  A chain adds
one for each of the four powers that its operators can have. -/
def Primary.depth : Primary → Nat
  | .identifier _ => 1
  | .integer _ _ => 1
  | .boolean _ _ => 1
  | .parens c => c.depth + BindingPower.multiplicative.rank + 1
  | .call x arguments => max x.depth (Chain.depthList arguments + 1)

/-- A bound of how many expressions stand inside each other in an argument. -/
def Chain.depthList : List Chain → Nat
  | [] => 0
  | c :: cs => max (c.depth + BindingPower.multiplicative.rank) (Chain.depthList cs)

end

/-- The operands of a chain. -/
def Chain.operands : Chain → List Operand
  | .operand a => [a]
  | .infixOp a _ c => a :: c.operands

/-- How many operators stand in front of a primary. -/
def Operand.prefixes : Operand → Nat
  | .primary _ => 0
  | .prefixOp _ a => a.prefixes + 1

/-- Whether an operand is a name, a number or a truth value, but for the operators in
front of it. -/
def Operand.isAtom : Operand → Bool
  | .primary (.parens _) => false
  | .primary (.call _ _) => false
  | .primary _ => true
  | .prefixOp _ a => a.isAtom

theorem Primary.depth_pos : ∀ x : Primary, 1 ≤ x.depth
  | .identifier _ => Nat.le_refl 1
  | .integer _ _ => Nat.le_refl 1
  | .boolean _ _ => Nat.le_refl 1
  | .parens c => by rw [Primary.depth]; omega
  | .call x arguments => by
    rw [Primary.depth]
    have := x.depth_pos
    omega

theorem Operand.depth_pos : ∀ a : Operand, 1 ≤ a.depth
  | .primary x => x.depth_pos
  | .prefixOp _ a => Nat.le_add_left 1 a.depth

theorem Chain.depth_pos : ∀ c : Chain, 1 ≤ c.depth
  | .operand a => a.depth_pos
  | .infixOp a _ c => Nat.le_trans a.depth_pos (Nat.le_max_left a.depth c.depth)

/-- Without parentheses and calls, only the operators in front of it add to the depth of
an operand. -/
theorem Operand.depth_of_isAtom : ∀ a : Operand, a.isAtom = true → a.depth = a.prefixes + 1
  | .primary x, h => by
    cases x with
    | identifier | integer | boolean => rfl
    | parens | call => cases h
  | .prefixOp _ a, h => congrArg (· + 1) (a.depth_of_isAtom h)

theorem Chain.depth_le_of_operands {n : Nat} : ∀ c : Chain,
    (∀ a ∈ c.operands, a.depth ≤ n) → c.depth ≤ n
  | .operand a, h => h a List.mem_cons_self
  | .infixOp a _ c, h => by
    rw [Chain.operands, List.forall_mem_cons] at h
    exact Nat.max_le.2 ⟨h.1, c.depth_le_of_operands h.2⟩

/-- The length of a chain without parentheses and calls does not add to its depth. -/
theorem Chain.depth_le_of_isAtom {n : Nat} {c : Chain}
    (h : ∀ a ∈ c.operands, a.isAtom = true ∧ a.prefixes ≤ n) : c.depth ≤ n + 1 := by
  refine c.depth_le_of_operands ?_
  intro a ha
  obtain ⟨hatom, hprefixes⟩ := h a ha
  rw [a.depth_of_isAtom hatom]
  exact Nat.succ_le_succ hprefixes

end Script
