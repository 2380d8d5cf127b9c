import StateTree.Binary64
import StateTree.Decimal

/-
  Rounding to the nearest 64-bit floating-point number, a tie to the even pattern. A quotient of
  whole numbers is measured in least positive numbers: a quotient below `2^53` is rounded to a
  whole number, a larger one to a multiple of the power of two that leaves it 53 binary digits.
-/

namespace StateTree.Binary64

/-- The quotient `num / den` rounded to a whole number, a half to the even side. -/
def roundEven (num den : Nat) : Nat :=
  let q := num / den
  let r := num % den
  if 2 * r < den ∨ (2 * r = den ∧ q % 2 = 0) then q else q + 1

/-- The ordinal nearest to `num / den` least positive numbers, that of infinity if every finite
number is too small. -/
def nearestOrdinal (num den : Nat) : Nat :=
  let shift := Nat.log2 (num / den) - 52
  min infinityOrdinal (shift * 2 ^ (52 : Nat) + roundEven num (den * 2 ^ shift))

/-- The number nearest to the quotient `num / den` with the given sign. -/
def nearest (negative : Bool) (num den : Nat) : Binary64 :=
  ofOrdinal negative (nearestOrdinal (num * unitsInOne) den)

def ofInt (i : Int) : Binary64 := nearest (i < 0) i.natAbs 1

/-- The number nearest to a decimal. Powers of ten beyond the range of the format are not
computed: above it all is infinite, below it all is zero. -/
def ofDecimal (negative : Bool) (d : Decimal) : Binary64 :=
  if d.significand = 0 ∨ d.point < -323 then ofOrdinal negative 0
  else if 310 ≤ d.point then infinity negative
  else if 0 ≤ d.exponent then nearest negative (d.significand * 10 ^ d.exponent.toNat) 1
  else nearest negative d.significand (10 ^ (-d.exponent).toNat)

/-! ## Exact numbers round to themselves -/

theorem roundEven_mul (n : Nat) {den : Nat} (h : 0 < den) : roundEven (n * den) den = n := by
  simp [roundEven, h]

theorem log2_mul_two_pow {m k : Nat} (low : 2 ^ (52 : Nat) ≤ m) (high : m < 2 ^ (53 : Nat)) :
    Nat.log2 (m * 2 ^ k) = 52 + k := by
  have hpos : 0 < m * 2 ^ k := Nat.mul_pos (by omega) (Nat.two_pow_pos k)
  refine (Nat.log2_eq_iff (by omega)).2 ⟨?_, ?_⟩
  · rw [Nat.pow_add]
    exact Nat.mul_le_mul_right _ low
  · rw [show 52 + k + 1 = 53 + k by omega, Nat.pow_add]
    exact Nat.mul_lt_mul_of_pos_right high (Nat.two_pow_pos k)

/-- The magnitude of a finite number, written as a quotient, rounds to its ordinal. -/
theorem nearestOrdinal_unitsAt {ordinal den : Nat} (finite : ordinal < infinityOrdinal)
    (h : 0 < den) : nearestOrdinal (unitsAt ordinal * den) den = ordinal := by
  unfold nearestOrdinal
  rw [Nat.mul_div_cancel _ h]
  by_cases small : ordinal < 2 ^ (52 : Nat)
  · have hlog : Nat.log2 ordinal ≤ 52 := by
      by_cases z : ordinal = 0
      · subst z; decide
      · exact Nat.le_of_lt ((Nat.log2_lt z).2 small)
    simp only [unitsAt, small, if_true, Nat.sub_eq_zero_of_le hlog, Nat.pow_zero, Nat.mul_one,
      Nat.zero_mul, Nat.zero_add, roundEven_mul _ h]
    exact Nat.min_eq_right (Nat.le_of_lt finite)
  · have hm := Nat.mod_lt ordinal (Nat.two_pow_pos 52)
    have hlog := log2_mul_two_pow (k := ordinal / 2 ^ (52 : Nat) - 1)
      (Nat.le_add_right (2 ^ (52 : Nat)) (ordinal % 2 ^ (52 : Nat))) (by omega)
    have hsplit := Nat.div_add_mod ordinal (2 ^ (52 : Nat))
    have hdiv : 1 ≤ ordinal / 2 ^ (52 : Nat) := Nat.div_pos (by omega) (Nat.two_pow_pos 52)
    simp only [unitsAt, small, if_false, hlog, Nat.add_sub_cancel_left]
    rw [Nat.mul_assoc, Nat.mul_comm _ den,
      roundEven_mul _ (Nat.mul_pos h (Nat.two_pow_pos _))]
    have e : (ordinal / 2 ^ (52 : Nat) - 1) * 2 ^ (52 : Nat) +
        (2 ^ (52 : Nat) + ordinal % 2 ^ (52 : Nat)) = ordinal := by omega
    rw [e]
    exact Nat.min_eq_right (Nat.le_of_lt finite)

end StateTree.Binary64
