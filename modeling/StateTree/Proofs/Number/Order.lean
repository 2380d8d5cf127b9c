import Mathlib.Algebra.Order.Field.Rat
import Mathlib.Algebra.Order.Ring.Cast
import Mathlib.Order.Compare
import Mathlib.Order.WithBot
import StateTree.Binary64.Scaling
import StateTree.Number
import StateTree.Proofs.Binary64.Units

/-
  The order of numbers. Two integers compare by value and so do two floating-point numbers, but an
  integer meets a floating-point number only after it has been rounded. Main statement: among
  numbers of which rounding loses nothing the order is total, equality is its equivalence, and
  numbers that are not NaN compare by their exact values (`compare_of_exact`). Beyond `2^53` an
  integer can be equal to a floating-point number that is equal to its neighbour too, so there the
  order is not transitive (`not_transitive_beyond_wholeBound`).
-/

namespace StateTree

open Binary64 (wholeBound unitsInOne infinityOrdinal)

namespace Binary64

/-- The exact value of a number that is not NaN. -/
def exactValue (x : Binary64) : WithBot (WithTop ℚ) :=
  if x.isInfinite then (if x.isNegative then ⊥ else ⊤)
  else (((x.signedUnits : ℚ) / (unitsInOne : ℚ) : ℚ) : WithTop ℚ)

theorem exactValue_of_finite {x : Binary64} (h : x.isInfinite = false) :
    x.exactValue = (((x.signedUnits : ℚ) / (unitsInOne : ℚ) : ℚ) : WithTop ℚ) := by
  unfold Binary64.exactValue
  rw [h]
  rfl

theorem ordinal_lt_of_finite {x : Binary64} (hn : x.isNaN = false) (hi : x.isInfinite = false) :
    x.ordinal < infinityOrdinal := by
  have hle : ¬ infinityOrdinal < x.ordinal := of_decide_eq_false hn
  have hne : ¬ x.ordinal = infinityOrdinal := of_decide_eq_false hi
  omega

/-- The total order is the order of the exact values. -/
theorem rank_lt_iff_exactValue_lt {x y : Binary64} (hx : x.isNaN = false) (hy : y.isNaN = false) :
    x.rank < y.rank ↔ x.exactValue < y.exactValue := by
  have hpos : 0 < infinityOrdinal := by decide
  cases hxi : x.isInfinite with
  | true =>
    have hxo : x.ordinal = infinityOrdinal := of_decide_eq_true hxi
    cases hyi : y.isInfinite with
    | true =>
      have hyo : y.ordinal = infinityOrdinal := of_decide_eq_true hyi
      unfold rank Binary64.exactValue
      rw [hxi, hyi, hxo, hyo]
      cases x.isNegative <;> cases y.isNegative <;> simp
      omega
    | false =>
      have hyo := ordinal_lt_of_finite hy hyi
      rw [exactValue_of_finite hyi]
      generalize (y.signedUnits : ℚ) / (unitsInOne : ℚ) = value
      unfold rank Binary64.exactValue
      rw [hxi, hxo]
      cases x.isNegative <;> cases y.isNegative <;> simp <;> omega
  | false =>
    have hxo := ordinal_lt_of_finite hx hxi
    cases hyi : y.isInfinite with
    | true =>
      have hyo : y.ordinal = infinityOrdinal := of_decide_eq_true hyi
      rw [exactValue_of_finite hxi]
      generalize (x.signedUnits : ℚ) / (unitsInOne : ℚ) = value
      unfold rank Binary64.exactValue
      rw [hyi, hyo]
      have htop : ∀ q : ℚ, ((q : WithTop ℚ) : WithBot (WithTop ℚ)) < ⊤ := fun q =>
        WithBot.coe_lt_coe.2 (WithTop.coe_lt_top q)
      cases x.isNegative <;> cases y.isNegative <;> simp [htop] <;> omega
    | false =>
      have hunits : (0 : ℚ) < unitsInOne := by exact_mod_cast unitsInOne_pos
      rw [exactValue_of_finite hxi, exactValue_of_finite hyi, rank_lt_rank_iff, WithBot.coe_lt_coe,
        WithTop.coe_lt_coe, div_lt_div_iff_of_pos_right hunits, Int.cast_lt]

theorem isNaN_ofInt (i : Int) : (Binary64.ofInt i).isNaN = false := isNaN_nearest _ _ _

/-- An integer of magnitude at most `2^53` is a floating-point number, and rounds to that. -/
theorem exactValue_ofInt {i : Int} (h : i.natAbs ≤ wholeBound) :
    (Binary64.ofInt i).exactValue = ((i : ℚ) : WithTop ℚ) := by
  obtain ⟨ordinal, finite, hunits⟩ := exists_unitsAt_wholeBound h
  have hordinal : (Binary64.ofInt i).ordinal = ordinal :=
    (ordinal_nearest _ _ _).trans (nearestOrdinal_whole finite hunits)
  have hnegative : (Binary64.ofInt i).isNegative = decide (i < 0) := isNegative_nearest _ _ _
  have hfinite : (Binary64.ofInt i).isInfinite = false := decide_eq_false (by omega)
  have hsigned : (Binary64.ofInt i).signedUnits = i * unitsInOne := by
    unfold signedUnits units
    rw [hnegative, hordinal, hunits, Nat.cast_mul]
    by_cases hi : i < 0
    · rw [decide_eq_true hi, if_pos rfl, ← Int.neg_mul]
      exact congrArg (· * (unitsInOne : Int)) (by omega)
    · rw [decide_eq_false hi, if_neg Bool.false_ne_true]
      exact congrArg (· * (unitsInOne : Int)) (by omega)
  have hpos : (unitsInOne : ℚ) ≠ 0 := by exact_mod_cast unitsInOne_pos.ne'
  rw [exactValue_of_finite hfinite, hsigned, Int.cast_mul, Int.cast_natCast,
    mul_div_cancel_right₀ _ hpos]

end Binary64

namespace Number

variable {a b c : Number}

def isNaN : Number → Bool
  | .int _ => false
  | .float x => x.isNaN

/-- The exact value of a number that is not NaN. -/
def exactValue : Number → WithBot (WithTop ℚ)
  | .int i => ((i.toInt : ℚ) : WithTop ℚ)
  | .float x => x.exactValue

/-- Rounding to a floating-point number does not change the value. -/
def IsExact (n : Number) : Prop := n.toBinary64.exactValue = n.exactValue

theorem isExact_float (x : Binary64) : IsExact (.float x) := rfl

theorem isExact_int {i : Int64} (h : i.toInt.natAbs ≤ wholeBound) : IsExact (.int i) :=
  Binary64.exactValue_ofInt h

theorem isNaN_toBinary64 (n : Number) : n.toBinary64.isNaN = n.isNaN := by
  cases n with
  | int i => exact Binary64.isNaN_ofInt i.toInt
  | float x => rfl

/-- Two orders that agree on what is less compare alike. -/
theorem compare_eq_cmp {α : Type} [LinearOrder α] {i j : Int} {x y : α} (h : i < j ↔ x < y)
    (h' : j < i ↔ y < x) : Ord.compare i j = cmp x y := by
  rcases lt_trichotomy i j with hlt | rfl | hgt
  · rw [compare_lt_iff_lt.2 hlt, (cmp_eq_lt_iff x y).2 (h.1 hlt)]
  · have heq : x = y := le_antisymm (not_lt.1 fun e => lt_irrefl _ (h'.2 e))
      (not_lt.1 fun e => lt_irrefl _ (h.2 e))
    rw [compare_eq_iff_eq.2 rfl, (cmp_eq_eq_iff x y).2 heq]
  · rw [compare_gt_iff_gt.2 hgt, (cmp_eq_gt_iff x y).2 (h'.1 hgt)]

/-- The comparison as that of two floating-point numbers compares exact values. -/
theorem compare_rank_eq_cmp {x y : Binary64} (hx : x.isNaN = false) (hy : y.isNaN = false) :
    x.compare y = cmp x.exactValue y.exactValue :=
  compare_eq_cmp (Binary64.rank_lt_iff_exactValue_lt hx hy)
    (Binary64.rank_lt_iff_exactValue_lt hy hx)

/-- Where rounding loses nothing, every comparison is one of the rounded numbers. -/
theorem compare_eq_rank (ha : a.IsExact) (hb : b.IsExact) :
    a.compare b = a.toBinary64.compare b.toBinary64 := by
  cases a with
  | float x => rfl
  | int i =>
    cases b with
    | float y => rfl
    | int j =>
      have hvalue : Ord.compare i.toInt j.toInt = cmp (exactValue (.int i)) (exactValue (.int j)) :=
        compare_eq_cmp (by simp [exactValue]) (by simp [exactValue])
      have hround := compare_rank_eq_cmp (Binary64.isNaN_ofInt i.toInt)
        (Binary64.isNaN_ofInt j.toInt)
      exact hvalue.trans ((congrArg₂ cmp ha hb).symm.trans hround.symm)

/-- Comparing the other way round gives the reverse, whatever is lost in rounding. -/
theorem compare_swap (a b : Number) : b.compare a = (a.compare b).swap := by
  have hint : ∀ i j : Int, Ord.compare j i = (Ord.compare i j).swap := fun i j =>
    Std.OrientedCmp.eq_swap
  cases a <;> cases b <;> exact hint _ _

theorem same_iff (a b : Number) : a.same b = true ↔ a.compare b = .eq := beq_iff_eq

/-- Among numbers of which rounding loses nothing the order is total, equality is its equivalence,
and numbers that are not NaN compare by their exact values. -/
theorem compare_of_exact (ha : a.IsExact) (hb : b.IsExact) (hc : c.IsExact) :
    b.compare a = (a.compare b).swap ∧
      (a.compare b ≠ .gt → b.compare c ≠ .gt → a.compare c ≠ .gt) ∧
      (a.same b = true → b.same c = true → a.same c = true) ∧
      (a.isNaN = false → b.isNaN = false → a.compare b = cmp a.exactValue b.exactValue) := by
  rw [same_iff, same_iff, same_iff, compare_eq_rank ha hc, compare_eq_rank hb hc]
  refine ⟨compare_swap a b, ?_, ?_, ?_⟩
  · rw [compare_eq_rank ha hb]
    unfold Binary64.compare
    rw [compare_le_iff_le, compare_le_iff_le, compare_le_iff_le]
    exact fun hab hbc => hab.trans hbc
  · rw [compare_eq_rank ha hb]
    unfold Binary64.compare
    rw [compare_eq_iff_eq, compare_eq_iff_eq, compare_eq_iff_eq]
    exact fun hab hbc => hab.trans hbc
  · intro hna hnb
    rw [compare_eq_rank ha hb, compare_rank_eq_cmp ((isNaN_toBinary64 a).trans hna)
      ((isNaN_toBinary64 b).trans hnb)]
    exact congrArg₂ cmp ha hb

/-- The greatest magnitude up to which all integers are exact, a floating-point number above it
and infinity. -/
theorem compare_of_exact_wholeBound :
    IsExact (.int 9007199254740992) ∧ IsExact (.float ⟨0x4340000000000001⟩) ∧
      IsExact (.float (Binary64.infinity false)) ∧
      Number.compare (.int 9007199254740992) (.float ⟨0x4340000000000001⟩) =
        cmp (exactValue (.int 9007199254740992)) (exactValue (.float ⟨0x4340000000000001⟩)) ∧
      Number.compare (.int 9007199254740992) (.float (Binary64.infinity false)) ≠ .gt := by
  have ha : IsExact (.int 9007199254740992) := isExact_int (by decide +kernel)
  have hb := isExact_float ⟨0x4340000000000001⟩
  have hc := isExact_float (Binary64.infinity false)
  obtain ⟨-, htrans, -, hvalue⟩ := compare_of_exact ha hb hc
  exact ⟨ha, hb, hc, hvalue (by decide +kernel) (by decide +kernel),
    htrans (by decide +kernel) (by decide +kernel)⟩

/-- `2^53 + 1` is equal to the floating-point number `2^53` and that to the integer `2^53`, but the
two integers differ. -/
theorem not_transitive_beyond_wholeBound :
    Number.same (.int 9007199254740993) (.float ⟨0x4340000000000000⟩) = true ∧
      Number.same (.float ⟨0x4340000000000000⟩) (.int 9007199254740992) = true ∧
      Number.same (.int 9007199254740993) (.int 9007199254740992) = false ∧
      Number.compare (.int 9007199254740993) (.int 9007199254740992) = .gt ∧
      exactValue (.float ⟨0x4340000000000000⟩) < exactValue (.int 9007199254740993) := by
  refine ⟨by decide +kernel, by decide +kernel, by decide +kernel, by decide +kernel, ?_⟩
  have hfloat : (⟨0x4340000000000000⟩ : Binary64) = Binary64.ofInt 9007199254740992 := by
    decide +kernel
  have hvalue : exactValue (.float ⟨0x4340000000000000⟩) =
      ((9007199254740992 : ℚ) : WithTop ℚ) := by
    rw [hfloat]
    exact Binary64.exactValue_ofInt (by decide +kernel)
  have hint : exactValue (.int 9007199254740993) = ((9007199254740993 : ℚ) : WithTop ℚ) := rfl
  rw [hvalue, hint, WithBot.coe_lt_coe, WithTop.coe_lt_coe]
  decide +kernel

/-- Nothing less will do: an integer that rounding changes is equal to its rounding. -/
theorem isExact_iff_compare_float (a : Number) :
    a.IsExact ↔ ∀ x : Binary64, a.isNaN = false → x.isNaN = false →
      a.compare (.float x) = cmp a.exactValue x.exactValue := by
  constructor
  · intro ha x hna hnx
    exact (compare_of_exact ha (isExact_float x) ha).2.2.2 hna hnx
  · intro h
    cases a with
    | float x => exact isExact_float x
    | int i =>
      have hself := h (Binary64.ofInt i.toInt) rfl (Binary64.isNaN_ofInt _)
      have heq : Number.compare (.int i) (.float (Binary64.ofInt i.toInt)) = .eq :=
        compare_eq_iff_eq.2 rfl
      exact ((cmp_eq_eq_iff _ _).1 (hself.symm.trans heq)).symm

end Number

end StateTree
