import StateTree.Binary64
import StateTree.Decimal

/-
  The digits of a decimal. `digits` leaves out the trailing zeros of the significand, which count
  for the power of ten instead (`exists_stripped`); a decimal other than zero keeps at least one
  digit, and its first one is not zero (`digits_ne_nil`, `head?_digits`).
-/

namespace StateTree.Decimal

open scoped Binary64

/-! ## Digits of whole numbers -/

theorem head?_toDigits {n : Nat} (h : n ≠ 0) : (Nat.toDigits 10 n).head? ≠ some '0' := by
  induction n using Nat.strongRecOn with
  | ind n ih =>
    rw [Nat.toDigits_eq_if (by decide)]
    split
    · next hlt =>
      have hdigit : ∀ k < 10, k ≠ 0 → k.digitChar ≠ '0' := by decide
      rw [List.head?_singleton, ne_eq, Option.some.injEq]
      exact hdigit n hlt h
    · have hrest := ih (n / 10) (by omega) (by omega)
      obtain ⟨c, cs, hc⟩ := List.exists_cons_of_ne_nil (Nat.toDigits_ne_nil (n := n / 10) (b := 10))
      rw [hc] at hrest ⊢
      exact hrest

theorem toDigits_mul_pow {m : Nat} (hm : 0 < m) (k : Nat) :
    Nat.toDigits 10 (m * 10 ^ k) = Nat.toDigits 10 m ++ zeros k := by
  induction k with
  | zero => simp [zeros]
  | succ k ih =>
    have hpos : 0 < m * 10 ^ k := Nat.mul_pos hm (Nat.pow_pos (by decide))
    have hnext := Nat.toDigits_append_toDigits (b := 10) (d := 0) (by decide) hpos (by decide)
    have hmul : m * 10 ^ (k + 1) = 10 * (m * 10 ^ k) + 0 := by
      rw [Nat.pow_succ, Nat.add_zero, ← Nat.mul_assoc, Nat.mul_comm]
    rw [hmul, ← hnext, ih, List.append_assoc, Nat.toDigits_zero]
    exact congrArg (Nat.toDigits 10 m ++ ·) List.replicate_succ'.symm

theorem ofDigitChars_zeros_append (k : Nat) (ds : List Char) :
    Nat.ofDigitChars 10 (zeros k ++ ds) 0 = Nat.ofDigitChars 10 ds 0 := by
  rw [Nat.ofDigitChars_append, zeros, Nat.ofDigitChars_replicate_zero, Nat.mul_zero]

theorem ofDigitChars_append_zeros (ds : List Char) (k : Nat) :
    Nat.ofDigitChars 10 (ds ++ zeros k) 0 = Nat.ofDigitChars 10 ds 0 * 10 ^ k := by
  rw [Nat.ofDigitChars_append, zeros, Nat.ofDigitChars_replicate_zero, Nat.mul_comm]

/-! ## Digits without trailing zeros -/

/-- The decimal with its trailing zeros in the power of ten. -/
def stripped (d : Decimal) : Decimal :=
  ⟨Nat.ofDigitChars 10 d.digits 0, d.point - d.digits.length⟩

theorem toDigits_significand (d : Decimal) :
    ∃ t, Nat.toDigits 10 d.significand = d.digits ++ zeros t := by
  refine ⟨((Nat.toDigits 10 d.significand).reverse.takeWhile (· = '0')).length, ?_⟩
  have hzeros : ∀ cs : List Char, (cs.takeWhile (· = '0')).reverse =
      zeros (cs.takeWhile (· = '0')).length := fun cs => by
    refine List.eq_replicate_iff.2 ⟨List.length_reverse, fun c hc => ?_⟩
    have hall := List.all_takeWhile (p := (· = '0')) (l := cs)
    exact of_decide_eq_true (List.all_eq_true.1 hall c (List.mem_reverse.1 hc))
  rw [digits, ← hzeros, ← List.reverse_append, List.takeWhile_append_dropWhile,
    List.reverse_reverse]

theorem exists_stripped (d : Decimal) :
    ∃ t : Nat, d = ⟨d.stripped.significand * 10 ^ t, d.exponent⟩ ∧
      d.stripped.exponent = d.exponent + t := by
  obtain ⟨t, ht⟩ := d.toDigits_significand
  refine ⟨t, ?_, ?_⟩
  · have hvalue : d.significand = d.stripped.significand * 10 ^ t := by
      calc d.significand = Nat.ofDigitChars 10 (Nat.toDigits 10 d.significand) 0 :=
            Nat.ofDigitChars_ten_toDigits.symm
        _ = d.stripped.significand * 10 ^ t := by
          rw [ht, ofDigitChars_append_zeros]
          rfl
    exact congrArg (Decimal.mk · d.exponent) hvalue
  · have hlength := congrArg List.length ht
    rw [List.length_append, zeros, List.length_replicate] at hlength
    show d.point - d.digits.length = d.exponent + t
    unfold point
    omega

theorem isDigit_of_mem_digits {d : Decimal} {c : Char} (h : c ∈ d.digits) : c.isDigit = true := by
  obtain ⟨t, ht⟩ := d.toDigits_significand
  have hm : c ∈ Nat.toDigits 10 d.significand := ht ▸ List.mem_append_left _ h
  exact Nat.isDigit_of_mem_toDigits (by decide) (by decide) hm

theorem digits_ne_nil {d : Decimal} (h : d.significand ≠ 0) : d.digits ≠ [] := by
  intro hnil
  obtain ⟨t, ht⟩ := d.toDigits_significand
  rw [hnil, List.nil_append] at ht
  cases t with
  | zero => exact Nat.toDigits_ne_nil ht
  | succ t => exact head?_toDigits h (by rw [ht]; rfl)

theorem head?_digits {d : Decimal} (h : d.significand ≠ 0) : d.digits.head? ≠ some '0' := by
  obtain ⟨t, ht⟩ := d.toDigits_significand
  have hhead := head?_toDigits h
  obtain ⟨c, cs, hc⟩ := List.exists_cons_of_ne_nil (digits_ne_nil h)
  rw [ht, hc] at hhead
  rw [hc]
  exact hhead

end StateTree.Decimal
