import StateTree.Number
import StateTree.Proofs.Binary64.Decimals
import StateTree.Proofs.Number.Order

/-
  Numbers that are integers. Such a number fits into 64 bits (`int64_of_toInt?`), and held as an
  integer it is still equal to itself (`same_of_toInt?`), also if it was a negative zero. So two
  numbers are equal exactly if they are one number once integers are held as such, as long as no
  integer is too large to be held otherwise (`same_iff_canonical`).
-/

namespace StateTree

namespace Binary64

variable {x : Binary64} {i : Int}

theorem ordinal_eq_natAbs_rank (x : Binary64) : x.ordinal = x.rank.natAbs := by
  unfold rank
  split <;> omega

/-- What it takes to be an integer. -/
theorem toInt?_eq_some (h : x.toInt? = some i) :
    x.ordinal < infinityOrdinal ∧ x.units = i.natAbs * unitsInOne ∧ i.natAbs ≤ wholeBound ∧
      (i ≠ 0 → x.isNegative = decide (i < 0)) := by
  unfold toInt? at h
  simp only at h
  split at h
  · next hx =>
    obtain ⟨finite, hmod, hle⟩ := hx
    have hunits : x.units = x.units / unitsInOne * unitsInOne :=
      (Nat.div_mul_cancel (Nat.dvd_of_mod_eq_zero hmod)).symm
    generalize x.units / unitsInOne = n at h hle hunits
    have habs : i.natAbs = n := by
      rw [← Option.some.inj h]
      split <;> omega
    refine ⟨of_decide_eq_true finite, habs ▸ hunits, habs ▸ hle, fun hi => ?_⟩
    rw [Option.some.injEq] at h
    cases hnegative : x.isNegative with
    | true =>
      rw [hnegative, if_pos rfl] at h
      exact (decide_eq_true (by omega)).symm
    | false =>
      rw [hnegative, if_neg Bool.false_ne_true] at h
      exact (decide_eq_false (by omega)).symm
  · simp at h

/-- Zero is an integer. -/
theorem units_ne_zero_of_toInt?_eq_none (finite : x.isFinite = true) (h : x.toInt? = none) :
    x.units ≠ 0 := by
  intro hzero
  unfold toInt? at h
  rw [hzero, Nat.zero_div, Nat.zero_mod] at h
  simp [finite] at h

/-- An integer has the place of the number that it is. -/
theorem rank_ofInt (h : x.toInt? = some i) : (Binary64.ofInt i).rank = x.rank := by
  obtain ⟨finite, hunits, -, hnegative⟩ := toInt?_eq_some h
  have hordinal : (Binary64.ofInt i).ordinal = x.ordinal :=
    (ordinal_nearest _ _ _).trans (nearestOrdinal_whole finite hunits)
  unfold rank
  rw [hordinal]
  by_cases hi : i = 0
  · rw [hi, Int.natAbs_zero, Nat.zero_mul] at hunits
    rw [(units_eq_zero_iff x).1 hunits]
    simp
  · have hsign : (Binary64.ofInt i).isNegative = decide (i < 0) := isNegative_nearest _ _ _
    rw [hsign, hnegative hi]

theorem rank_ofInt_lt_iff {j : Int} (hi : i.natAbs ≤ wholeBound) (hj : j.natAbs ≤ wholeBound) :
    (Binary64.ofInt i).rank < (Binary64.ofInt j).rank ↔ i < j := by
  rw [rank_lt_iff_exactValue_lt (isNaN_ofInt i) (isNaN_ofInt j), exactValue_ofInt hi,
    exactValue_ofInt hj, WithBot.coe_lt_coe, WithTop.coe_lt_coe, Int.cast_lt]

/-- Up to the bound, every integer has a place of its own. -/
theorem rank_ofInt_inj {j : Int} (hi : i.natAbs ≤ wholeBound) (hj : j.natAbs ≤ wholeBound) :
    (Binary64.ofInt i).rank = (Binary64.ofInt j).rank ↔ i = j := by
  have hlt := rank_ofInt_lt_iff hi hj
  have hgt := rank_ofInt_lt_iff hj hi
  omega

/-- What stands at the place of an integer is an integer. -/
theorem toInt?_ne_none_of_rank (h : x.rank = (Binary64.ofInt i).rank) (hi : i.natAbs ≤ wholeBound) :
    x.toInt? ≠ none := by
  obtain ⟨ordinal, finite, hunits⟩ := exists_unitsAt_wholeBound hi
  have hordinal : x.ordinal = ordinal := by
    rw [ordinal_eq_natAbs_rank, h, ← ordinal_eq_natAbs_rank]
    exact (ordinal_nearest _ _ _).trans (nearestOrdinal_whole finite hunits)
  have hx : x.units = i.natAbs * unitsInOne := by rw [units, hordinal, hunits]
  have hfinite : x.isFinite = true := decide_eq_true (hordinal ▸ finite)
  unfold toInt?
  rw [hx, Nat.mul_div_cancel _ unitsInOne_pos, Nat.mul_mod_left, if_pos ⟨hfinite, rfl, hi⟩]
  exact Option.some_ne_none _

/-- Only the two zeros share a place. -/
theorem eq_of_rank_eq {y : Binary64} (h : x.rank = y.rank) (hne : x.rank ≠ 0) : x = y := by
  have hordinal : x.ordinal = y.ordinal := by
    rw [ordinal_eq_natAbs_rank, ordinal_eq_natAbs_rank, h]
  have hnegative : x.isNegative = y.isNegative := by
    unfold rank at h hne
    cases hx : x.isNegative <;> cases hy : y.isNegative <;> simp [hx, hy] at h hne ⊢ <;> omega
  rw [← ofOrdinal_ordinal x, ← ofOrdinal_ordinal y, hordinal, hnegative]

end Binary64

namespace Number

variable {n : Number} {i : Int}

theorem int64_of_toInt? (h : n.toInt? = some i) :
    Int64.minValue.toInt ≤ i ∧ i ≤ Int64.maxValue.toInt := by
  cases n with
  | int j =>
    rw [toInt?, Option.some.injEq] at h
    exact h ▸ ⟨Int64.minValue_le_toInt j, Int64.toInt_le j⟩
  | float x =>
    have hbound : i.natAbs ≤ 2 ^ (53 : Nat) := (Binary64.toInt?_eq_some h).2.2.1
    have hmin : Int64.minValue.toInt = -2 ^ (63 : Nat) := by decide
    have hmax : Int64.maxValue.toInt = 2 ^ (63 : Nat) - 1 := by decide
    omega

theorem toInt_int64_of_toInt? (h : n.toInt? = some i) : (Int64.ofInt i).toInt = i := by
  obtain ⟨low, high⟩ := int64_of_toInt? h
  exact Int64.toInt_ofInt_of_le low (Int.lt_of_le_sub_one high)

/-- A number that is an integer is equal to that integer. -/
theorem same_of_toInt? (h : n.toInt? = some i) : Number.same (.int (Int64.ofInt i)) n = true := by
  have htoInt := toInt_int64_of_toInt? h
  cases n with
  | int j =>
    rw [toInt?, Option.some.injEq] at h
    rw [← h, Int64.ofInt_toInt]
    exact same_self _
  | float x =>
    have hrank : (Binary64.ofInt (Int64.ofInt i).toInt).rank = x.rank := by
      rw [htoInt]
      exact Binary64.rank_ofInt h
    show (Ord.compare (Binary64.ofInt (Int64.ofInt i).toInt).rank x.rank == .eq) = true
    rw [hrank]
    simp

/-! ## Integers held as integers -/

open Binary64 (wholeBound)

/-- The number, held as an integer if it is one. -/
def canonical (n : Number) : Number :=
  match n.toInt? with
  | some i => .int (Int64.ofInt i)
  | none => n

/-- A floating-point number, or an integer of magnitude at most `2^53`. -/
def IsSafe : Number → Prop
  | .int i => i.toInt.natAbs ≤ wholeBound
  | .float _ => True

instance : DecidablePred IsSafe
  | .int i => inferInstanceAs (Decidable (i.toInt.natAbs ≤ wholeBound))
  | .float _ => isTrue trivial

variable {m : Number}

theorem IsSafe.isExact (h : n.IsSafe) : n.IsExact := by
  cases n with
  | int i => exact isExact_int h
  | float x => exact isExact_float x

theorem IsSafe.natAbs_le (h : n.IsSafe) (hi : n.toInt? = some i) : i.natAbs ≤ wholeBound := by
  cases n with
  | int j =>
    rw [toInt?, Option.some.injEq] at hi
    exact hi ▸ h
  | float x => exact (Binary64.toInt?_eq_some hi).2.2.1

theorem canonical_of_toInt? (h : n.toInt? = some i) : n.canonical = .int (Int64.ofInt i) := by
  unfold canonical
  rw [h]

theorem canonical_of_not_toInt? (h : n.toInt? = none) : n.canonical = n := by
  unfold canonical
  rw [h]

theorem rank_of_toInt? (h : n.toInt? = some i) :
    n.toBinary64.rank = (Binary64.ofInt i).rank := by
  cases n with
  | int j =>
    rw [toInt?, Option.some.injEq] at h
    exact h ▸ rfl
  | float x => exact (Binary64.rank_ofInt h).symm

theorem same_iff_rank (hm : m.IsExact) (hn : n.IsExact) :
    m.same n = true ↔ m.toBinary64.rank = n.toBinary64.rank := by
  rw [same_iff, compare_eq_rank hm hn, Binary64.compare, compare_eq_iff_eq]

/-- Only a floating-point number can fail to be an integer. -/
theorem exists_float_of_not_toInt? (h : n.toInt? = none) :
    ∃ x : Binary64, n = .float x ∧ x.toInt? = none := by
  cases n with
  | int j => simp [toInt?] at h
  | float x => exact ⟨x, rfl, h⟩

theorem rank_ne_of_toInt? (hm : m.IsSafe) (hi : m.toInt? = some i) (hn : n.toInt? = none) :
    n.toBinary64.rank ≠ m.toBinary64.rank := by
  obtain ⟨x, rfl, hx⟩ := exists_float_of_not_toInt? hn
  rw [rank_of_toInt? hi]
  exact fun h => Binary64.toInt?_ne_none_of_rank h (hm.natAbs_le hi) hx

/-- Equal numbers are one number once integers are held as such, and no others are. -/
theorem same_iff_canonical (hm : m.IsSafe) (hn : n.IsSafe) :
    m.same n = true ↔ m.canonical = n.canonical := by
  rw [same_iff_rank hm.isExact hn.isExact]
  cases hi : m.toInt? with
  | some i =>
    cases hj : n.toInt? with
    | some j =>
      rw [canonical_of_toInt? hi, canonical_of_toInt? hj, rank_of_toInt? hi, rank_of_toInt? hj,
        Binary64.rank_ofInt_inj (hm.natAbs_le hi) (hn.natAbs_le hj), int.injEq, ← Int64.toInt_inj,
        toInt_int64_of_toInt? hi, toInt_int64_of_toInt? hj]
    | none =>
      rw [canonical_of_toInt? hi, canonical_of_not_toInt? hj]
      refine iff_of_false (rank_ne_of_toInt? hm hi hj).symm fun h => ?_
      rw [← h, toInt?] at hj
      cases hj
  | none =>
    cases hj : n.toInt? with
    | some j =>
      rw [canonical_of_not_toInt? hi, canonical_of_toInt? hj]
      refine iff_of_false (rank_ne_of_toInt? hn hj hi) fun h => ?_
      rw [h, toInt?] at hi
      cases hi
    | none =>
      rw [canonical_of_not_toInt? hi, canonical_of_not_toInt? hj]
      obtain ⟨x, rfl, hx⟩ := exists_float_of_not_toInt? hi
      obtain ⟨y, rfl, -⟩ := exists_float_of_not_toInt? hj
      have hzero : x.rank ≠ 0 := fun h =>
        Binary64.toInt?_ne_none_of_rank (h.trans (by decide +kernel : 0 = (Binary64.ofInt 0).rank))
          (Nat.zero_le _) hx
      exact ⟨fun h => congrArg float (Binary64.eq_of_rank_eq h hzero), fun h => h ▸ rfl⟩

end Number

end StateTree
