import Mathlib.Order.Monotone.Basic
import StateTree.Binary64.Nearest

/-
  The magnitudes of floating-point numbers. Magnitudes grow with the ordinals
  (`unitsAt_strictMono`), so the order of the patterns is that of the numbers they stand for. Every
  whole number up to `2^53` is the magnitude of some pattern, and rounding finds that pattern
  (`nearestOrdinal_whole`).
-/

namespace StateTree.Binary64

/-! ## Magnitudes grow with the ordinals -/

theorem unitsAt_small {n : Nat} (h : n < 2 ^ (52 : Nat)) : unitsAt n = n := if_pos h

/-- The magnitude at an ordinal, given its exponent and the binary digits after the leading one. -/
theorem unitsAt_normal {q r : Nat} (hr : r < 2 ^ (52 : Nat)) :
    unitsAt ((q + 1) * 2 ^ (52 : Nat) + r) = (2 ^ (52 : Nat) + r) * 2 ^ q := by
  have hlarge : ¬ (q + 1) * 2 ^ (52 : Nat) + r < 2 ^ (52 : Nat) := by omega
  have hdiv : ((q + 1) * 2 ^ (52 : Nat) + r) / 2 ^ (52 : Nat) = q + 1 := by omega
  have hmod : ((q + 1) * 2 ^ (52 : Nat) + r) % 2 ^ (52 : Nat) = r := by omega
  rw [unitsAt, if_neg hlarge, hdiv, hmod, Nat.add_sub_cancel]

theorem unitsAt_lt_succ (n : Nat) : unitsAt n < unitsAt (n + 1) := by
  by_cases hsmall : n + 1 < 2 ^ (52 : Nat)
  · rw [unitsAt_small hsmall, unitsAt_small (by omega)]
    omega
  by_cases hlast : n < 2 ^ (52 : Nat)
  · -- The last number that is a multiple of the least one, and the first one with a leading digit.
    have hn : n + 1 = (0 + 1) * 2 ^ (52 : Nat) + 0 := by omega
    rw [unitsAt_small hlast, hn, unitsAt_normal (Nat.two_pow_pos 52)]
    omega
  obtain ⟨q, r, hr, rfl⟩ : ∃ q r, r < 2 ^ (52 : Nat) ∧ n = (q + 1) * 2 ^ (52 : Nat) + r :=
    ⟨n / 2 ^ (52 : Nat) - 1, n % 2 ^ (52 : Nat), Nat.mod_lt _ (Nat.two_pow_pos 52), by omega⟩
  have hpos : 0 < 2 ^ q := Nat.two_pow_pos q
  rw [unitsAt_normal hr]
  by_cases hnext : r + 1 < 2 ^ (52 : Nat)
  · rw [Nat.add_assoc, unitsAt_normal hnext]
    exact Nat.mul_lt_mul_of_pos_right (by omega) hpos
  · have hn : (q + 1) * 2 ^ (52 : Nat) + r + 1 = (q + 1 + 1) * 2 ^ (52 : Nat) + 0 := by omega
    have hpow : 2 ^ (q + 1) = 2 * 2 ^ q := Nat.pow_succ'
    rw [hn, unitsAt_normal (Nat.two_pow_pos 52), hpow, ← Nat.mul_assoc]
    exact Nat.mul_lt_mul_of_pos_right (by omega) hpos

theorem unitsAt_strictMono : StrictMono unitsAt := strictMono_nat_of_lt_succ unitsAt_lt_succ

/-! ## Signed magnitudes -/

/-- A finite number, counted in least positive numbers. -/
def signedUnits (x : Binary64) : Int := if x.isNegative then -(x.units : Int) else x.units

/-- The total order is the order of the magnitudes with their signs. -/
theorem rank_lt_rank_iff (x y : Binary64) : x.rank < y.rank ↔ x.signedUnits < y.signedUnits := by
  have hlt : ∀ a b : Nat, unitsAt a < unitsAt b ↔ a < b := fun a b => unitsAt_strictMono.lt_iff_lt
  have hzero : unitsAt 0 = 0 := by decide
  have hx := hlt 0 x.ordinal
  have hy := hlt 0 y.ordinal
  have hxy := hlt x.ordinal y.ordinal
  have hyx := hlt y.ordinal x.ordinal
  unfold rank signedUnits units
  cases x.isNegative <;> cases y.isNegative <;>
    simp only [Bool.false_eq_true, if_true, if_false] <;> omega

/-! ## Whole numbers -/

/-- A whole number below `2^53` is the magnitude of a finite pattern. -/
theorem exists_unitsAt_whole {n : Nat} (h : n < 2 ^ (53 : Nat)) :
    ∃ ordinal < infinityOrdinal, unitsAt ordinal = n * unitsInOne := by
  by_cases hzero : n = 0
  · exact ⟨0, by decide, by rw [hzero, Nat.zero_mul]; rfl⟩
  -- The leading digit of the number moves to the place that the patterns give it.
  have hlog : Nat.log2 n < 53 := (Nat.log2_lt hzero).2 h
  have hlow : 2 ^ Nat.log2 n ≤ n := Nat.log2_self_le hzero
  have hhigh : n < 2 ^ (Nat.log2 n + 1) := Nat.lt_log2_self
  generalize Nat.log2 n = k at hlog hlow hhigh
  have hscale : 2 ^ k * 2 ^ (52 - k) = 2 ^ (52 : Nat) := by
    rw [← Nat.pow_add]
    exact congrArg (2 ^ ·) (by omega)
  have hm : 2 ^ (52 : Nat) ≤ n * 2 ^ (52 - k) := hscale ▸ Nat.mul_le_mul_right _ hlow
  have hm' : n * 2 ^ (52 - k) < 2 ^ (53 : Nat) := by
    calc n * 2 ^ (52 - k) < 2 ^ (k + 1) * 2 ^ (52 - k) :=
          Nat.mul_lt_mul_of_pos_right hhigh (Nat.two_pow_pos _)
      _ = 2 ^ (53 : Nat) := by rw [← Nat.pow_add]; exact congrArg (2 ^ ·) (by omega)
  obtain ⟨r, hr⟩ := Nat.exists_eq_add_of_le hm
  refine ⟨(1022 + k + 1) * 2 ^ (52 : Nat) + r, ?_, ?_⟩
  · unfold infinityOrdinal
    omega
  · have hpow : 2 ^ (52 - k) * 2 ^ (1022 + k) = unitsInOne := by
      rw [← Nat.pow_add, unitsInOne]
      exact congrArg (2 ^ ·) (by omega)
    rw [unitsAt_normal (by omega), ← hr, Nat.mul_assoc, hpow]

theorem exists_unitsAt_wholeBound {n : Nat} (h : n ≤ wholeBound) :
    ∃ ordinal < infinityOrdinal, unitsAt ordinal = n * unitsInOne := by
  rcases Nat.lt_or_eq_of_le h with hlt | rfl
  · exact exists_unitsAt_whole hlt
  · -- One digit more, but it is the power of two itself.
    have hshift : ∀ q : Nat, (2 ^ (52 : Nat) + 0) * 2 ^ (q + 1) = wholeBound * 2 ^ q := fun q => by
      have hpow : 2 ^ (q + 1) = 2 * 2 ^ q := Nat.pow_succ'
      rw [hpow, ← Nat.mul_assoc]
      rfl
    refine ⟨(1074 + 1 + 1) * 2 ^ (52 : Nat) + 0, by decide, ?_⟩
    rw [unitsAt_normal (Nat.two_pow_pos 52), hshift, unitsInOne]

/-- Rounding keeps a magnitude that some pattern has. -/
theorem nearestOrdinal_whole {n ordinal : Nat} (finite : ordinal < infinityOrdinal)
    (h : unitsAt ordinal = n * unitsInOne) : nearestOrdinal (n * unitsInOne) 1 = ordinal := by
  have hround := nearestOrdinal_unitsAt finite Nat.one_pos
  rwa [Nat.mul_one, h] at hround

theorem lt_of_lt_infinityOrdinal {ordinal : Nat} (h : ordinal ≤ infinityOrdinal) :
    ordinal < 2 ^ (63 : Nat) := Nat.lt_of_le_of_lt h (by decide)

theorem nearestOrdinal_le (num den : Nat) : nearestOrdinal num den ≤ infinityOrdinal :=
  Nat.min_le_left _ _

theorem ordinal_nearest (negative : Bool) (num den : Nat) :
    (nearest negative num den).ordinal = nearestOrdinal (num * unitsInOne) den :=
  ordinal_ofOrdinal (lt_of_lt_infinityOrdinal (nearestOrdinal_le _ _))

theorem isNegative_nearest (negative : Bool) (num den : Nat) :
    (nearest negative num den).isNegative = negative :=
  isNegative_ofOrdinal (lt_of_lt_infinityOrdinal (nearestOrdinal_le _ _))

/-- Rounding gives a number or an infinity. -/
theorem isNaN_nearest (negative : Bool) (num den : Nat) :
    (nearest negative num den).isNaN = false := by
  refine decide_eq_false (Nat.not_lt.2 ?_)
  rw [ordinal_nearest]
  exact nearestOrdinal_le _ _

end StateTree.Binary64
