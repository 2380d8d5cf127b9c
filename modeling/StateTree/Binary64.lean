/-
  Binary floating-point numbers of 64 bits, as their bit patterns. Without the sign bit a pattern
  is an ordinal: it counts the non-negative numbers upward from zero, then comes infinity, then
  the patterns that are no number. A finite number is a whole multiple of the least positive one,
  which is worth `2^-1074`.
-/

namespace StateTree

structure Binary64 where
  bits : UInt64
deriving DecidableEq

namespace Binary64

/-- Powers are the built-in ones, whatever else is in scope. -/
scoped instance (priority := high) builtinPow {α : Type} [NatPow α] : Pow α Nat := instPowNat

/-- The place in the order of the non-negative patterns, with the sign left out. -/
def ordinal (x : Binary64) : Nat := x.bits.toNat % 2 ^ (63 : Nat)

def isNegative (x : Binary64) : Bool := 2 ^ (63 : Nat) ≤ x.bits.toNat

/-- The ordinal of infinity. Smaller ordinals are finite numbers, larger ones no numbers. -/
def infinityOrdinal : Nat := 2047 * 2 ^ (52 : Nat)

def isNaN (x : Binary64) : Bool := infinityOrdinal < x.ordinal

def isInfinite (x : Binary64) : Bool := x.ordinal = infinityOrdinal

def isFinite (x : Binary64) : Bool := x.ordinal < infinityOrdinal

def ofOrdinal (negative : Bool) (ordinal : Nat) : Binary64 :=
  ⟨UInt64.ofNat ((if negative then 2 ^ (63 : Nat) else 0) + ordinal)⟩

def zero : Binary64 := ofOrdinal false 0

def negativeZero : Binary64 := ofOrdinal true 0

def infinity (negative : Bool) : Binary64 := ofOrdinal negative infinityOrdinal

def nan : Binary64 := ofOrdinal false (infinityOrdinal + 2 ^ (51 : Nat))

/-- How many least positive numbers make one. -/
def unitsInOne : Nat := 2 ^ (1074 : Nat)

theorem unitsInOne_pos : 0 < unitsInOne := by decide +kernel

/-- The magnitude of the finite number at an ordinal, in least positive numbers. -/
def unitsAt (ordinal : Nat) : Nat :=
  if ordinal < 2 ^ (52 : Nat) then ordinal
  else (2 ^ (52 : Nat) + ordinal % 2 ^ (52 : Nat)) * 2 ^ (ordinal / 2 ^ (52 : Nat) - 1)

/-- The magnitude of a finite number, in least positive numbers. -/
def units (x : Binary64) : Nat := unitsAt x.ordinal

/-- The place in the total order. Negative patterns stand in reverse below the positive ones, both
zeros stand at nought, and the patterns that are no number lie beyond the infinities. -/
def rank (x : Binary64) : Int := if x.isNegative then -(x.ordinal : Int) else x.ordinal

def compare (x y : Binary64) : Ordering := Ord.compare x.rank y.rank

/-- The largest magnitude up to which every whole number has a pattern of its own. -/
def wholeBound : Nat := 2 ^ (53 : Nat)

/-- The integer that a whole number of magnitude at most `wholeBound` is. -/
def toInt? (x : Binary64) : Option Int :=
  let n := x.units / unitsInOne
  if x.isFinite ∧ x.units % unitsInOne = 0 ∧ n ≤ wholeBound then
    some (if x.isNegative then -(n : Int) else n)
  else none

/-! ## Patterns and ordinals -/

theorem toNat_ofOrdinal {negative : Bool} {ordinal : Nat} (h : ordinal < 2 ^ (63 : Nat)) :
    (ofOrdinal negative ordinal).bits.toNat =
      (if negative then 2 ^ (63 : Nat) else 0) + ordinal := by
  have h64 : (if negative then 2 ^ (63 : Nat) else 0) + ordinal < 2 ^ (64 : Nat) := by
    split <;> omega
  exact Nat.mod_eq_of_lt h64

theorem ordinal_ofOrdinal {negative : Bool} {ordinal : Nat} (h : ordinal < 2 ^ (63 : Nat)) :
    (ofOrdinal negative ordinal).ordinal = ordinal := by
  unfold Binary64.ordinal
  rw [toNat_ofOrdinal h]
  split <;> omega

theorem isNegative_ofOrdinal {negative : Bool} {ordinal : Nat} (h : ordinal < 2 ^ (63 : Nat)) :
    (ofOrdinal negative ordinal).isNegative = negative := by
  unfold isNegative
  rw [toNat_ofOrdinal h]
  cases negative
  · exact decide_eq_false (by simp; omega)
  · exact decide_eq_true (by simp)

theorem ordinal_lt (x : Binary64) : x.ordinal < 2 ^ (63 : Nat) := Nat.mod_lt _ (by decide)

/-- A pattern is its sign and its ordinal. -/
theorem ofOrdinal_ordinal (x : Binary64) : ofOrdinal x.isNegative x.ordinal = x := by
  obtain ⟨bits⟩ := x
  have hlt := bits.toNat_lt
  have h := @toNat_ofOrdinal (isNegative ⟨bits⟩) _ (ordinal_lt ⟨bits⟩)
  refine congrArg Binary64.mk (UInt64.toNat_inj.1 (h.trans ?_))
  simp only [isNegative, ordinal, decide_eq_true_eq]
  split <;> omega

end Binary64

end StateTree
