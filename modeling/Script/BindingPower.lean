/-!
# Binding powers

Where an operator stands between two operands, or an operand between two
operators, the binding powers decide which of them belong together.

## Main definitions

* `BindingPower` — how tightly an operator binds, weakest first, with its order.
* `BindingPower.rank` — the place of a binding power in that order.
-/

namespace Script

/-- How tightly an operator binds, weakest first. -/
inductive BindingPower where
  /-- Weaker than every operator. -/
  | lowest
  /-- The power of `==` and `!=`. -/
  | equality
  /-- The power of `<`, `<=`, `>` and `>=`. -/
  | relational
  /-- The power of `+` and `-` between operands. -/
  | additive
  /-- The power of `*` and `/`. -/
  | multiplicative
  /-- The power of `!` and `-` in front of an operand. -/
  | unary
  /-- The power of an argument list. -/
  | call
  deriving DecidableEq, Repr, Inhabited

namespace BindingPower

/-- The rank of a binding power, counted from the weakest. -/
def rank : BindingPower → Nat
  | lowest => 0
  | equality => 1
  | relational => 2
  | additive => 3
  | multiplicative => 4
  | unary => 5
  | call => 6

theorem rank_injective {p q : BindingPower} (h : p.rank = q.rank) : p = q := by
  cases p <;> cases q <;> simp_all [rank]

instance : LT BindingPower := ⟨fun p q => p.rank < q.rank⟩

instance : LE BindingPower := ⟨fun p q => p.rank ≤ q.rank⟩

instance : Ord BindingPower := ⟨fun p q => compare p.rank q.rank⟩

instance (p q : BindingPower) : Decidable (p < q) := inferInstanceAs (Decidable (p.rank < q.rank))

instance (p q : BindingPower) : Decidable (p ≤ q) := inferInstanceAs (Decidable (p.rank ≤ q.rank))

end BindingPower

end Script
