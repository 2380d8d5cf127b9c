import StateTree.Binary64.Scaling
import StateTree.Binary64.Shortest
import StateTree.Proofs.Binary64.Units
import StateTree.Proofs.Decimal

/-
  Decimals and the numbers nearest to them. Rounding depends on the value of a quotient alone
  (`nearest_congr`), so powers of ten can be moved between the significand and the exponent of a
  decimal (`ofDecimal_mul_pow`). Main statements: the shortest decimal of a finite number other than
  zero rounds back to that number (`ofDecimal_shortest`), and scaling a short significand by a
  small power of ten gives the nearest number too (`scale?_nearest`).
-/

namespace StateTree.Binary64

/-! ## Rounding depends on the value alone -/

theorem roundEven_mul_right (num den : Nat) {c : Nat} (hc : 0 < c) :
    roundEven (num * c) (den * c) = roundEven num den := by
  have hlt : 2 * (num % den * c) < den * c ↔ 2 * (num % den) < den := by
    rw [← Nat.mul_assoc]
    exact Nat.mul_lt_mul_right hc
  have heq : 2 * (num % den * c) = den * c ↔ 2 * (num % den) = den := by
    rw [← Nat.mul_assoc]
    exact Nat.mul_left_inj hc.ne'
  unfold roundEven
  simp only [Nat.mul_div_mul_right num den hc, Nat.mul_mod_mul_right, hlt, heq]

theorem nearestOrdinal_mul_right (num den : Nat) {c : Nat} (hc : 0 < c) :
    nearestOrdinal (num * c) (den * c) = nearestOrdinal num den := by
  unfold nearestOrdinal
  simp only [Nat.mul_div_mul_right num den hc]
  rw [Nat.mul_right_comm den c, roundEven_mul_right _ _ hc]

theorem nearest_congr (negative : Bool) {a b a' b' : Nat} (hb : 0 < b) (hb' : 0 < b')
    (h : a * b' = a' * b) : nearest negative a b = nearest negative a' b' := by
  have hcross : a * unitsInOne * b' = a' * unitsInOne * b := by
    rw [Nat.mul_right_comm, h, Nat.mul_right_comm]
  have hordinal : nearestOrdinal (a * unitsInOne) b = nearestOrdinal (a' * unitsInOne) b' := by
    calc nearestOrdinal (a * unitsInOne) b
        = nearestOrdinal (a * unitsInOne * b') (b * b') :=
          (nearestOrdinal_mul_right _ _ hb').symm
      _ = nearestOrdinal (a' * unitsInOne * b) (b' * b) := by rw [hcross, Nat.mul_comm b]
      _ = nearestOrdinal (a' * unitsInOne) b' := nearestOrdinal_mul_right _ _ hb
  exact congrArg (ofOrdinal negative) hordinal

/-! ## Decimals -/

theorem ofDecimal_of_point {d : Decimal} (negative : Bool) (h : d.significand ≠ 0)
    (low : -323 ≤ d.point) (high : d.point < 310) :
    ofDecimal negative d =
      nearest negative (d.significand * 10 ^ d.exponent.toNat) (10 ^ (-d.exponent).toNat) := by
  have hrange : ¬ (d.significand = 0 ∨ d.point < -323) := by omega
  unfold ofDecimal
  rw [if_neg hrange, if_neg (by omega)]
  split
  · next hexponent =>
    have hzero : (-d.exponent).toNat = 0 := by omega
    rw [hzero, Nat.pow_zero]
  · next hexponent =>
    have hzero : d.exponent.toNat = 0 := by omega
    rw [hzero, Nat.pow_zero, Nat.mul_one]

theorem point_mul_pow {m : Nat} (h : m ≠ 0) (e : Int) (k : Nat) :
    Decimal.point ⟨m * 10 ^ k, e⟩ = Decimal.point ⟨m, e + k⟩ := by
  have hdigits := congrArg List.length (Decimal.toDigits_mul_pow (Nat.pos_of_ne_zero h) k)
  rw [List.length_append, Decimal.zeros, List.length_replicate] at hdigits
  unfold Decimal.point
  simp only [hdigits]
  omega

/-- A power of ten counts the same in the significand and in the exponent. -/
theorem ofDecimal_mul_pow (negative : Bool) (m : Nat) (e : Int) (k : Nat) :
    ofDecimal negative ⟨m * 10 ^ k, e⟩ = ofDecimal negative ⟨m, e + k⟩ := by
  have hten : ∀ n : Nat, 0 < 10 ^ n := fun n => Nat.pow_pos (by decide)
  by_cases hm : m = 0
  · subst hm
    unfold ofDecimal
    rw [if_pos (Or.inl (Nat.zero_mul _)), if_pos (Or.inl rfl)]
  have hmul : m * 10 ^ k ≠ 0 := Nat.mul_ne_zero hm (hten k).ne'
  have hpoint := point_mul_pow hm e k
  by_cases hlow : Decimal.point ⟨m, e + k⟩ < -323
  · unfold ofDecimal
    rw [if_pos (Or.inr (hpoint ▸ hlow)), if_pos (Or.inr hlow)]
  by_cases hhigh : 310 ≤ Decimal.point ⟨m, e + k⟩
  · unfold ofDecimal
    rw [if_neg (not_or.2 ⟨hmul, hpoint ▸ hlow⟩), if_neg (not_or.2 ⟨hm, hlow⟩), hpoint,
      if_pos hhigh, if_pos hhigh]
  rw [ofDecimal_of_point _ hmul (by omega) (by omega),
    ofDecimal_of_point _ hm (by omega) (by omega)]
  refine nearest_congr negative (hten _) (hten _) ?_
  show m * 10 ^ k * 10 ^ e.toNat * 10 ^ (-(e + k)).toNat =
    m * 10 ^ (e + k).toNat * 10 ^ (-e).toNat
  -- Both sides move the same powers of ten to the other side of the quotient.
  have hpow : k + e.toNat + (-(e + k)).toNat = (e + k).toNat + (-e).toNat := by omega
  rw [Nat.mul_assoc, Nat.mul_assoc, Nat.mul_assoc, ← Nat.pow_add, ← Nat.pow_add, ← Nat.pow_add,
    ← Nat.add_assoc, hpow]

theorem ofDecimal_stripped (negative : Bool) (d : Decimal) :
    ofDecimal negative d.stripped = ofDecimal negative d := by
  obtain ⟨t, hd, hexponent⟩ := d.exists_stripped
  have hmove := ofDecimal_mul_pow negative d.stripped.significand d.exponent t
  rw [← hd, ← hexponent] at hmove
  exact hmove.symm

/-- The sign of a decimal is only that of the number. -/
theorem ofDecimal_eq_ofOrdinal (negative : Bool) (d : Decimal) :
    ofDecimal negative d = ofOrdinal negative (ofDecimal false d).ordinal := by
  have hnearest : ∀ num den,
      nearest negative num den = ofOrdinal negative (nearest false num den).ordinal :=
    fun num den => by rw [ordinal_nearest]; rfl
  unfold ofDecimal
  split
  · rw [ordinal_ofOrdinal (by decide)]
  split
  · rw [infinity, infinity, ordinal_ofOrdinal (lt_of_lt_infinityOrdinal (Nat.le_refl _))]
  split
  · exact hnearest _ _
  · exact hnearest _ _

/-! ## The shortest decimal -/

variable {x : Binary64}

theorem units_eq_zero_iff (x : Binary64) : x.units = 0 ↔ x.ordinal = 0 := by
  have hzero : unitsAt 0 = 0 := by decide
  rw [units, ← hzero, unitsAt_strictMono.injective.eq_iff, hzero]

theorem units_lt (h : x.ordinal < infinityOrdinal) : x.units < 2 ^ (2098 : Nat) := by
  have hinfinity : unitsAt infinityOrdinal = 2 ^ (2098 : Nat) := by decide +kernel
  rw [← hinfinity]
  exact unitsAt_strictMono h

/-- A decimal that counts a power of two. -/
theorem ofDecimal_five_pow {n a : Nat} (h : a ≠ 0) (low : -323 ≤ Decimal.point ⟨a * 5 ^ n, -n⟩)
    (high : Decimal.point ⟨a * 5 ^ n, -n⟩ < 310) :
    ofDecimal false ⟨a * 5 ^ n, -n⟩ = nearest false a (2 ^ n) := by
  have hfive : 0 < 5 ^ n := Nat.pow_pos (by decide)
  have hup : (-(n : Int)).toNat = 0 := by omega
  have hdown : (- -(n : Int)).toNat = n := by omega
  rw [ofDecimal_of_point false (Nat.mul_ne_zero h hfive.ne') low high]
  simp only [hup, hdown]
  refine nearest_congr false (Nat.pow_pos (by decide)) (Nat.pow_pos (by decide)) ?_
  rw [Nat.pow_zero, Nat.mul_one, Nat.mul_assoc, ← Nat.mul_pow]

theorem point_bounds {m : Nat} {e : Int} {lo hi : Nat} (hlo : 0 < lo) (hhi : 0 < hi)
    (low : 10 ^ lo ≤ m) (high : m < 10 ^ hi) :
    lo + e < Decimal.point ⟨m, e⟩ ∧ Decimal.point ⟨m, e⟩ ≤ hi + e := by
  have hmore : ¬ (Nat.toDigits 10 m).length ≤ lo := by
    rw [Nat.length_toDigits_le_iff (by decide) hlo]
    exact Nat.not_lt.2 low
  have hless := (Nat.length_toDigits_le_iff (b := 10) (by decide) hhi).2 high
  show lo + e < (Nat.toDigits 10 m).length + e ∧ (Nat.toDigits 10 m).length + e ≤ hi + e
  exact ⟨by omega, by omega⟩

/-- The exact decimal has its first digit where a finite number can have one. -/
theorem point_exact (finite : x.ordinal < infinityOrdinal) (h : x.units ≠ 0) :
    -323 ≤ x.exact.point ∧ x.exact.point < 310 := by
  have hlow : 10 ^ (750 : Nat) ≤ x.units * 5 ^ (1074 : Nat) := by
    have hfive : 10 ^ (750 : Nat) ≤ 5 ^ (1074 : Nat) := by decide +kernel
    exact Nat.le_trans hfive (Nat.le_mul_of_pos_left _ (Nat.pos_of_ne_zero h))
  have hhigh : x.units * 5 ^ (1074 : Nat) < 10 ^ (1383 : Nat) := by
    have hfive : 2 ^ (2098 : Nat) * 5 ^ (1074 : Nat) < 10 ^ (1383 : Nat) := by decide +kernel
    exact Nat.lt_of_le_of_lt (Nat.mul_le_mul_right _ (Nat.le_of_lt (units_lt finite))) hfive
  obtain ⟨hmore, hless⟩ := point_bounds (e := -1074) (by decide) (by decide) hlow hhigh
  clear hlow hhigh
  unfold exact
  exact ⟨by omega, by omega⟩

/-- All digits of a number together round back to it. -/
theorem ordinal_ofDecimal_exact (finite : x.ordinal < infinityOrdinal) (h : x.units ≠ 0) :
    (ofDecimal false x.exact).ordinal = x.ordinal := by
  obtain ⟨low, high⟩ := point_exact finite h
  have hround : ofDecimal false x.exact = nearest false x.units unitsInOne :=
    ofDecimal_five_pow h low high
  rw [hround, ordinal_nearest]
  exact nearestOrdinal_unitsAt finite unitsInOne_pos

theorem readsBack_of_takeBack? {below above d : Decimal} {belowIsNearer : Bool}
    (h : x.takeBack? below above belowIsNearer = some d) : x.readsBack d = true := by
  unfold takeBack? at h
  split at h
  · next hbelow habove =>
    rw [Option.some.injEq] at h
    subst h
    split
    · exact hbelow
    · exact habove
  · next hbelow _ => exact Option.some.inj h ▸ hbelow
  · next _ habove => exact Option.some.inj h ▸ habove
  · simp at h

theorem readsBack_of_candidate? {tie : Tie} {count : Nat} {d : Decimal}
    (h : x.candidate? tie count = some d) : x.readsBack d = true := by
  unfold candidate? at h
  exact readsBack_of_takeBack? h

theorem ordinal_ofDecimal_shortest (tie : Tie) (finite : x.ordinal < infinityOrdinal)
    (h : x.units ≠ 0) : (ofDecimal false (x.shortest tie)).ordinal = x.ordinal := by
  unfold shortest
  cases hfind : (List.range 17).findSome? fun i => x.candidate? tie (i + 1) with
  | none =>
    rw [Option.getD_none]
    exact ordinal_ofDecimal_exact finite h
  | some d =>
    rw [Option.getD_some]
    obtain ⟨i, -, hcandidate⟩ := List.exists_of_findSome?_eq_some hfind
    exact of_decide_eq_true (readsBack_of_candidate? hcandidate)

/-- The shortest decimal of a number other than zero, with its sign, rounds back to it. -/
theorem ofDecimal_shortest (tie : Tie) (finite : x.ordinal < infinityOrdinal) (h : x.units ≠ 0) :
    ofDecimal x.isNegative (x.shortest tie) = x := by
  rw [ofDecimal_eq_ofOrdinal, ordinal_ofDecimal_shortest tie finite h, ofOrdinal_ordinal]

theorem significand_shortest_ne_zero (tie : Tie) (finite : x.ordinal < infinityOrdinal)
    (h : x.units ≠ 0) : (x.shortest tie).significand ≠ 0 := by
  intro hzero
  have hordinal := ordinal_ofDecimal_shortest tie finite h
  unfold ofDecimal at hordinal
  rw [if_pos (Or.inl hzero), ordinal_ofOrdinal (by decide)] at hordinal
  exact h ((units_eq_zero_iff x).2 hordinal.symm)

/-! ## Scaling in one step -/

/-- The powers of ten that are rounded to themselves. -/
theorem powerOfTen_exact : ∀ k < 23,
    (powerOfTen k).isNegative = false ∧ (powerOfTen k).units = 10 ^ k * unitsInOne := by
  decide +kernel

theorem units_nearest_whole (negative : Bool) {m : Nat} (h : m ≤ wholeBound) :
    (nearest negative m 1).units = m * unitsInOne := by
  obtain ⟨ordinal, finite, hunits⟩ := exists_unitsAt_wholeBound h
  rw [units, ordinal_nearest, nearestOrdinal_whole finite hunits, hunits]

theorem ofDecimal_small (negative : Bool) {m : Nat} {e : Int} (hm : m ≤ wholeBound)
    (he : e.natAbs ≤ 22) :
    ofDecimal negative ⟨m, e⟩ = nearest negative (m * 10 ^ e.toNat) (10 ^ (-e).toNat) := by
  by_cases hzero : m = 0
  · subst hzero
    have hone : 0 < 10 ^ (-e).toNat := Nat.pow_pos (by decide)
    have hnearest : nearestOrdinal (0 * 10 ^ e.toNat * unitsInOne) (10 ^ (-e).toNat) = 0 := by
      have hunits : unitsAt 0 = 0 := by decide
      have hround : nearestOrdinal (unitsAt 0 * 10 ^ (-e).toNat) (10 ^ (-e).toNat) = 0 :=
        nearestOrdinal_unitsAt (by decide) hone
      rw [hunits, Nat.zero_mul] at hround
      rw [Nat.zero_mul, Nat.zero_mul, hround]
    unfold ofDecimal nearest
    rw [if_pos (Or.inl rfl), hnearest]
  · have hlength := (Nat.length_toDigits_le_iff (b := 10) (k := 16) (by decide) (by decide)).2
      (Nat.lt_of_le_of_lt hm (by decide))
    have hpoint : Decimal.point ⟨m, e⟩ = (Nat.toDigits 10 m).length + e := rfl
    exact ofDecimal_of_point negative hzero (by omega) (by omega)

/-- One step by an exact power of ten rounds once, to the nearest number. -/
theorem scale?_nearest {negative : Bool} {m : Nat} {e : Int} (hm : m ≤ wholeBound)
    (he : e.natAbs ≤ 22) (finite : (ofDecimal negative ⟨m, e⟩).isFinite = true) :
    (nearest negative m 1).scale? e = some (ofDecimal negative ⟨m, e⟩) := by
  obtain ⟨hsign, hpower⟩ := powerOfTen_exact e.natAbs (by omega)
  have hunits := units_nearest_whole negative hm
  have hten : ∀ k : Nat, 0 < 10 ^ k := fun k => Nat.pow_pos (by decide)
  rw [ofDecimal_small negative hm he] at finite ⊢
  unfold scale?
  rw [if_pos (Nat.le_trans he (by decide))]
  by_cases hup : 0 ≤ e
  · have habs : e.toNat = e.natAbs := by omega
    have hdown : (-e).toNat = 0 := by omega
    have hmul : (nearest negative m 1).mul (powerOfTen e.natAbs) =
        nearest negative (m * 10 ^ e.natAbs) 1 := by
      unfold mul
      rw [isNegative_nearest, hsign, Bool.xor_false, hunits, hpower]
      refine nearest_congr negative (Nat.mul_pos unitsInOne_pos unitsInOne_pos) Nat.one_pos ?_
      rw [Nat.mul_one, Nat.mul_mul_mul_comm]
    rw [habs, hdown, Nat.pow_zero] at finite ⊢
    rw [if_pos hup, hmul, if_pos finite]
  · have habs : (-e).toNat = e.natAbs := by omega
    have hzero : e.toNat = 0 := by omega
    have hdiv : (nearest negative m 1).div (powerOfTen e.natAbs) =
        nearest negative m (10 ^ e.natAbs) := by
      unfold div
      rw [isNegative_nearest, hsign, Bool.xor_false, hunits, hpower]
      refine nearest_congr negative (Nat.mul_pos (hten _) unitsInOne_pos) (hten _) ?_
      rw [Nat.mul_assoc, Nat.mul_comm unitsInOne]
    rw [habs, hzero, Nat.pow_zero, Nat.mul_one, if_neg hup, hdiv]

end StateTree.Binary64
