/-!
# Decimal numbers

An integer is written with decimal digits only, any number of leading zeros
included, and must fit into 64 bits with a sign.

## Main definitions

* `decimalValue` — the number that a list of digits stands for.
* `maxInteger` — the greatest integer.
* `integer?` — the integer that a literal stands for.

## Main results

* `integer?_eq_some_iff` — which literals stand for an integer, and for which.
-/

namespace Script.Text

/-- The number that a list of decimal digits stands for. -/
def decimalValue (digits : List Char) : Nat :=
  digits.foldl (fun value digit => 10 * value + (digit.toNat - '0'.toNat)) 0

/-- The greatest integer, one less than the power of two with exponent 63: of 64 bits
one is the sign. -/
def maxInteger : Nat := 9223372036854775807

/-- The integer that a literal stands for: none if it is empty, has anything but
digits in it, or is too great. -/
def integer? (literal : String) : Option Int64 :=
  let digits := literal.toList
  if digits ≠ [] ∧ digits.all Char.isDigit ∧ decimalValue digits ≤ maxInteger then
    some (Int64.ofNat (decimalValue digits))
  else
    none

theorem integer?_eq_some_iff {literal : String} {value : Int64} :
    integer? literal = some value ↔
      literal.toList ≠ [] ∧ (∀ c ∈ literal.toList, c.isDigit) ∧
        decimalValue literal.toList ≤ maxInteger ∧
        value.toInt = decimalValue literal.toList := by
  simp only [integer?]
  have hfit {n : Nat} (h : n ≤ maxInteger) : (Int64.ofNat n).toInt = n :=
    Int64.toInt_ofNat_of_lt (Nat.lt_of_le_of_lt h (by decide))
  constructor
  · intro h
    split at h
    · next hd =>
      obtain ⟨hne, hall, hle⟩ := hd
      refine ⟨hne, List.all_eq_true.1 hall, hle, ?_⟩
      rw [← Option.some.inj h, hfit hle]
    · cases h
  · rintro ⟨hne, hall, hle, hv⟩
    rw [if_pos ⟨hne, List.all_eq_true.2 hall, hle⟩]
    exact congrArg some (Int64.toInt_inj.1 (by rw [hfit hle, hv]))

example : integer? "0007" = some 7 := by decide +kernel

example : integer? "9223372036854775807" = some Int64.maxValue := by decide +kernel

example : integer? "9223372036854775808" = none ∧ integer? "" = none := by decide +kernel

end Script.Text
