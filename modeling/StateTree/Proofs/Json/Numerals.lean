import StateTree.Json.Numeral
import StateTree.Json.Writer
import StateTree.Proofs.Binary64.Decimals

/-
  Numerals of written numbers. An integer is written as the numeral `ofInt`, a finite
  floating-point number that is no integer as `ofBinary64`. Each of them is read back whole where
  no character follows that a numeral could take up (`read?_toString`, `read?_floatText`). The
  first one is kept as an integer, and the number nearest to the second one is the number that was
  written (`nearest_ofBinary64`).
-/

namespace StateTree.Json

open scoped Binary64

/-- Whether a numeral can take up a character after its first digit. -/
def continues (c : Char) : Bool := c.isDigit || c = '.' || c = 'e' || c = 'E'

/-- The text does not go on with a character that a numeral could take up. -/
def Delimited (cs : List Char) : Prop := ∀ c ∈ cs.head?, continues c = false

theorem delimited_nil : Delimited [] := by simp [Delimited]

theorem delimited_cons {c : Char} (h : continues c = false) (cs : List Char) :
    Delimited (c :: cs) := by
  intro d hd
  rw [List.head?_cons, Option.mem_some_iff] at hd
  exact hd ▸ h

namespace Numeral

/-- The decimal that a numeral is. -/
def decimal (n : Numeral) : Decimal :=
  ⟨Nat.ofDigitChars 10 (n.whole ++ n.fraction) 0, n.power - n.fraction.length⟩

/-- The floating-point number nearest to a numeral. -/
def nearest (n : Numeral) : Binary64 := Binary64.ofDecimal n.negative n.decimal

variable {negative : Bool} {ds rest : List Char}

/-! ## Parts of numerals -/

theorem takeWhile_digits (hds : ∀ c ∈ ds, c.isDigit = true)
    (hrest : ∀ c ∈ rest.head?, c.isDigit = false) : (ds ++ rest).takeWhile Char.isDigit = ds := by
  rw [List.takeWhile_append_of_pos hds]
  cases rest with
  | nil => simp
  | cons c cs => simp [hrest c rfl]

theorem dropWhile_digits (hds : ∀ c ∈ ds, c.isDigit = true)
    (hrest : ∀ c ∈ rest.head?, c.isDigit = false) : (ds ++ rest).dropWhile Char.isDigit = rest := by
  rw [List.dropWhile_append_of_pos hds]
  cases rest with
  | nil => rfl
  | cons c cs => simp [hrest c rfl]

theorem isDigit_of_delimited (h : Delimited rest) : ∀ c ∈ rest.head?, c.isDigit = false := by
  intro c hc
  have hcontinues := h c hc
  simp only [continues, Bool.or_eq_false_iff] at hcontinues
  exact hcontinues.1.1.1

theorem fraction?_digits (hne : ds ≠ []) (hds : ∀ c ∈ ds, c.isDigit = true)
    (hrest : ∀ c ∈ rest.head?, c.isDigit = false) :
    fraction? ('.' :: (ds ++ rest)) = some (ds, rest) := by
  rw [fraction?, takeWhile_digits hds hrest, dropWhile_digits hds hrest, if_neg hne]

theorem fraction?_none (h : '.' ∉ rest.head?) : fraction? rest = some ([], rest) := by
  unfold fraction?
  split
  · simp at h
  · rfl

theorem signed?_digits (hne : ds ≠ []) (hds : ∀ c ∈ ds, c.isDigit = true)
    (hrest : ∀ c ∈ rest.head?, c.isDigit = false) :
    signed? negative (ds ++ rest) =
      some (if negative then -(Nat.ofDigitChars 10 ds 0 : Int) else Nat.ofDigitChars 10 ds 0,
        rest) := by
  simp only [signed?, takeWhile_digits hds hrest, dropWhile_digits hds hrest, if_neg hne]

theorem power?_none (h : Delimited rest) : power? rest = some (none, rest) := by
  cases rest with
  | nil => rfl
  | cons c cs =>
    have hc := h c rfl
    simp only [continues, Bool.or_eq_false_iff, decide_eq_false_iff_not] at hc
    unfold power?
    exact if_neg (not_or.2 ⟨hc.1.2, hc.2⟩)

theorem power?_digits (power : Int) (hrest : ∀ c ∈ rest.head?, c.isDigit = false) :
    power? ('e' :: (if power < 0 then '-' else '+') :: (Nat.toDigits 10 power.natAbs ++ rest)) =
      some (some power, rest) := by
  have hne : Nat.toDigits 10 power.natAbs ≠ [] := Nat.toDigits_ne_nil
  have hds : ∀ c ∈ Nat.toDigits 10 power.natAbs, c.isDigit = true := fun c hc =>
    Nat.isDigit_of_mem_toDigits (by decide) (by decide) hc
  have hminus : ∀ cs, power? ('e' :: '-' :: cs) = (signed? true cs).map fun p => (some p.1, p.2) :=
    fun _ => rfl
  have hplus : ∀ cs, power? ('e' :: '+' :: cs) = (signed? false cs).map fun p => (some p.1, p.2) :=
    fun _ => rfl
  by_cases hneg : power < 0
  · have habs : -(power.natAbs : Int) = power := by omega
    rw [if_pos hneg, hminus, signed?_digits hne hds hrest, Nat.ofDigitChars_ten_toDigits,
      if_pos rfl, habs]
    rfl
  · have habs : (power.natAbs : Int) = power := by omega
    rw [if_neg hneg, hplus, signed?_digits hne hds hrest, Nat.ofDigitChars_ten_toDigits,
      if_neg Bool.false_ne_true, habs]
    rfl

/-- Digits that can stand before the point: none too few, and a zero in front only alone. -/
structure IsWhole (ds : List Char) : Prop where
  ne_nil : ds ≠ []
  digits : ∀ c ∈ ds, c.isDigit = true
  head : ¬ (ds.head? = some '0' ∧ 1 < ds.length)

theorem unsigned?_parts {fraction tail more : List Char} {power : Option Int} (hds : IsWhole ds)
    (htail : ∀ c ∈ tail.head?, c.isDigit = false) (hf : fraction? tail = some (fraction, more))
    (hp : power? more = some (power, rest)) :
    unsigned? negative (ds ++ tail) =
      some (⟨negative, ds, fraction, power.getD 0, fraction.isEmpty && power.isNone⟩, rest) := by
  have hok : ¬ (ds = [] ∨ (ds.head? = some '0' ∧ 1 < ds.length)) := not_or.2 ⟨hds.ne_nil, hds.head⟩
  unfold unsigned?
  simp only [takeWhile_digits hds.digits htail, dropWhile_digits hds.digits htail, if_neg hok, hf,
    hp, Option.bind_eq_bind, Option.bind_some, Option.pure_def]

/-- The sign of a numeral stands in front of it. -/
theorem read?_sign (negative : Bool) (hds : IsWhole ds) (tail : List Char) :
    read? ((if negative then ['-'] else []) ++ (ds ++ tail)) = unsigned? negative (ds ++ tail) := by
  cases negative with
  | true => rfl
  | false =>
    obtain ⟨c, cs, rfl⟩ := List.exists_cons_of_ne_nil hds.ne_nil
    have hdigit := hds.digits c List.mem_cons_self
    have hminus : c ≠ '-' := by
      rintro rfl
      exact absurd hdigit (by decide)
    show read? (c :: (cs ++ tail)) = _
    unfold read?
    split
    · next h => exact absurd (List.cons.inj h).1 hminus
    · rfl

theorem read?_parts {fraction tail more : List Char} {power : Option Int} (negative : Bool)
    (hds : IsWhole ds) (htail : ∀ c ∈ tail.head?, c.isDigit = false)
    (hf : fraction? tail = some (fraction, more)) (hp : power? more = some (power, rest)) :
    read? ((if negative then ['-'] else []) ++ (ds ++ tail)) =
      some (⟨negative, ds, fraction, power.getD 0, fraction.isEmpty && power.isNone⟩, rest) := by
  rw [read?_sign negative hds, unsigned?_parts hds htail hf hp]

/-- A numeral in positional notation. -/
theorem read?_point {fraction : List Char} (negative : Bool) (hds : IsWhole ds)
    (hne : fraction ≠ []) (hfraction : ∀ c ∈ fraction, c.isDigit = true) (h : Delimited rest) :
    read? ((if negative then ['-'] else []) ++ (ds ++ '.' :: (fraction ++ rest))) =
      some (⟨negative, ds, fraction, 0, false⟩, rest) := by
  have hpoint : ∀ c ∈ ('.' :: (fraction ++ rest)).head?, c.isDigit = false := by
    intro c hc
    rw [List.head?_cons, Option.mem_some_iff] at hc
    exact hc ▸ rfl
  have hempty : fraction.isEmpty = false := List.isEmpty_eq_false_iff.2 hne
  rw [read?_parts negative hds hpoint (fraction?_digits hne hfraction (isDigit_of_delimited h))
    (power?_none h), hempty]
  rfl

/-! ## Integers -/

/-- The numeral of an integer. -/
def ofInt (i : Int) : Numeral := ⟨i < 0, Nat.toDigits 10 i.natAbs, [], 0, true⟩

theorem isWhole_toDigits (n : Nat) : IsWhole (Nat.toDigits 10 n) := by
  refine ⟨Nat.toDigits_ne_nil,
    fun c hc => Nat.isDigit_of_mem_toDigits (by decide) (by decide) hc, ?_⟩
  rintro ⟨hhead, hlength⟩
  by_cases hn : n = 0
  · subst hn
    exact absurd hlength (by decide)
  · exact Decimal.head?_toDigits hn hhead

theorem toList_toString (i : Int) :
    (toString i).toList = (if i < 0 then ['-'] else []) ++ Nat.toDigits 10 i.natAbs := by
  rw [Int.toString_eq_repr, Int.repr_eq_if]
  by_cases hi : 0 ≤ i
  · have habs : i.toNat = i.natAbs := by omega
    rw [if_pos hi, if_neg (by omega), habs, Nat.repr_eq_ofList_toDigits, String.toList_ofList]
    rfl
  · have habs : (-i).toNat = i.natAbs := by omega
    rw [if_neg hi, if_pos (by omega), habs, String.toList_append, Nat.repr_eq_ofList_toDigits,
      String.toList_ofList, String.toList_ofList]

theorem read?_toString (i : Int) (h : Delimited rest) :
    read? ((toString i).toList ++ rest) = some (ofInt i, rest) := by
  have hds := isWhole_toDigits i.natAbs
  have hpoint : '.' ∉ rest.head? := fun hm => absurd (h '.' hm) (by decide)
  have hparts := read?_parts (decide (i < 0)) hds (isDigit_of_delimited h) (fraction?_none hpoint)
    (power?_none h)
  simp only [decide_eq_true_eq] at hparts
  rw [toList_toString, List.append_assoc, hparts]
  rfl

theorem toInt_ofInt (i : Int) : (ofInt i).toInt = i := by
  unfold toInt ofInt
  simp only [Nat.ofDigitChars_ten_toDigits, decide_eq_true_eq]
  split <;> omega

/-- The numeral of an integer that 64 bits hold is kept as that integer. -/
theorem int64?_ofInt {i : Int} (low : Int64.minValue.toInt ≤ i) (high : i ≤ Int64.maxValue.toInt) :
    (ofInt i).int64? = some (Int64.ofInt i) := by
  have hzero : ¬ ((ofInt i).negative = true ∧ (ofInt i).toInt = 0) := by
    rw [toInt_ofInt]
    rintro ⟨hneg, rfl⟩
    exact absurd hneg (by decide)
  unfold int64?
  rw [if_pos ⟨rfl, hzero⟩, toInt_ofInt, Number.ofInt, if_pos ⟨low, high⟩]

/-! ## Digits of floating-point numbers -/

/-- Digits that do not begin with a zero. -/
structure IsLeading (ds : List Char) : Prop where
  ne_nil : ds ≠ []
  digits : ∀ c ∈ ds, c.isDigit = true
  head : ds.head? ≠ some '0'

theorem isLeading_digits {d : Decimal} (h : d.significand ≠ 0) : IsLeading d.digits :=
  ⟨Decimal.digits_ne_nil h, fun _ hc => Decimal.isDigit_of_mem_digits hc, Decimal.head?_digits h⟩

theorem isDigit_of_mem_zeros {k : Nat} {c : Char} (h : c ∈ Decimal.zeros k) : c.isDigit = true := by
  rw [(List.mem_replicate.1 h).2]
  rfl

/-- The first digits can stand before the point. -/
theorem IsLeading.take (h : IsLeading ds) {k : Nat} (hk : k ≠ 0) : IsWhole (ds.take k) := by
  refine ⟨fun hnil => (List.take_eq_nil_iff.1 hnil).elim hk h.ne_nil,
    fun c hc => h.digits c (List.mem_of_mem_take hc), fun hbad => ?_⟩
  rw [List.head?_take, if_neg hk] at hbad
  exact h.head hbad.1

/-- All digits and some zeros can stand before the point. -/
theorem IsLeading.append_zeros (h : IsLeading ds) (k : Nat) : IsWhole (ds ++ Decimal.zeros k) := by
  refine ⟨List.append_ne_nil_of_left_ne_nil h.ne_nil _,
    fun c hc => (List.mem_append.1 hc).elim (h.digits c) isDigit_of_mem_zeros, fun hbad => ?_⟩
  obtain ⟨c, cs, rfl⟩ := List.exists_cons_of_ne_nil h.ne_nil
  exact h.head hbad.1

/-- The numeral of digits in positional notation. -/
def ofPositional (negative : Bool) (ds : List Char) (point : Int) : Numeral :=
  if point ≤ 0 then ⟨negative, ['0'], Decimal.zeros (-point).toNat ++ ds, 0, false⟩
  else if ds.length ≤ point.toNat then
    ⟨negative, ds ++ Decimal.zeros (point.toNat - ds.length), ['0'], 0, false⟩
  else ⟨negative, ds.take point.toNat, ds.drop point.toNat, 0, false⟩

/-- The numeral of digits with a power of ten, which the first one counts. -/
def ofScientific (negative : Bool) (ds : List Char) (power : Int) : Numeral :=
  ⟨negative, ds.take 1, ds.drop 1, power, false⟩

theorem read?_positionalText (negative : Bool) (hds : IsLeading ds) (point : Int)
    (h : Delimited rest) :
    read? ((if negative then ['-'] else []) ++ (Decimal.positionalText ".0" ds point ++ rest)) =
      some (ofPositional negative ds point, rest) := by
  unfold Decimal.positionalText ofPositional
  by_cases hpoint : point ≤ 0
  · have hwhole : IsWhole ['0'] := ⟨by simp, by simp, by simp⟩
    have hfraction : ∀ c ∈ Decimal.zeros (-point).toNat ++ ds, c.isDigit = true := fun c hc =>
      (List.mem_append.1 hc).elim isDigit_of_mem_zeros (hds.digits c)
    rw [if_pos hpoint, if_pos hpoint]
    exact read?_point negative hwhole (List.append_ne_nil_of_right_ne_nil _ hds.ne_nil) hfraction h
  rw [if_neg hpoint, if_neg hpoint]
  by_cases hall : ds.length ≤ point.toNat
  · have hzero : ∀ c ∈ ['0'], c.isDigit = true := by simp
    have hread := read?_point negative (hds.append_zeros (point.toNat - ds.length))
      (List.cons_ne_nil '0' []) hzero h
    rw [if_pos hall, if_pos hall, List.append_assoc _ _ rest]
    exact hread
  · have hsome : ds.drop point.toNat ≠ [] := mt List.drop_eq_nil_iff.1 hall
    have hread := read?_point negative (hds.take (k := point.toNat) (by omega)) hsome
      (fun c hc => hds.digits c (List.mem_of_mem_drop hc)) h
    rw [if_neg hall, if_neg hall, List.append_assoc _ _ rest]
    exact hread

theorem read?_scientificText (negative : Bool) (hds : IsLeading ds) (power : Int)
    (h : Delimited rest) :
    read? ((if negative then ['-'] else []) ++ (Decimal.scientificText ds power ++ rest)) =
      some (ofScientific negative ds power, rest) := by
  have hwhole : IsWhole (ds.take 1) := hds.take Nat.one_ne_zero
  have hpower := power?_digits power (isDigit_of_delimited h)
  unfold Decimal.scientificText ofScientific
  by_cases hone : ds.length ≤ 1
  · have hdrop : ds.drop 1 = [] := List.drop_eq_nil_of_le hone
    have hread := read?_parts negative hwhole (by simp) (fraction?_none (by simp)) hpower
    rw [if_pos hone, hdrop, List.append_nil, List.append_assoc]
    exact hread
  · have hsome : ds.drop 1 ≠ [] := mt List.drop_eq_nil_iff.1 hone
    have hdigits : ∀ c ∈ ds.drop 1, c.isDigit = true := fun c hc =>
      hds.digits c (List.mem_of_mem_drop hc)
    have hread := read?_parts negative hwhole (by simp) (fraction?_digits hsome hdigits (by simp))
      hpower
    rw [Option.isNone_some, Bool.and_false] at hread
    rw [if_neg hone, List.append_assoc, List.append_assoc]
    exact hread

/-- The digits with a point somewhere are worth as much as without it. -/
theorem nearest_ofPositional (negative : Bool) (ds : List Char) (point : Int) :
    (ofPositional negative ds point).nearest =
      Binary64.ofDecimal negative ⟨Nat.ofDigitChars 10 ds 0, point - ds.length⟩ := by
  unfold ofPositional
  split
  · next hpoint =>
    -- Zeros in front count for nothing.
    have hdigits : ['0'] ++ (Decimal.zeros (-point).toNat ++ ds) =
        Decimal.zeros ((-point).toNat + 1) ++ ds := rfl
    have hexponent : (0 : Int) - (Decimal.zeros (-point).toNat ++ ds).length =
        point - ds.length := by
      rw [List.length_append, Decimal.zeros, List.length_replicate]
      omega
    unfold nearest decimal
    rw [hdigits, Decimal.ofDigitChars_zeros_append, hexponent]
  · split
    · next hall =>
      -- Zeros at the end count for the power of ten.
      have hdigits : ds ++ Decimal.zeros (point.toNat - ds.length) ++ ['0'] =
          ds ++ Decimal.zeros (point.toNat - ds.length + 1) := by
        rw [List.append_assoc]
        exact congrArg (ds ++ ·) List.replicate_succ'.symm
      have hexponent : (0 : Int) - (['0'] : List Char).length +
          ((point.toNat - ds.length + 1 : Nat) : Int) = point - ds.length := by
        rw [List.length_singleton]
        omega
      unfold nearest decimal
      rw [hdigits, Decimal.ofDigitChars_append_zeros, Binary64.ofDecimal_mul_pow, hexponent]
    · next hsome =>
      have hexponent : (0 : Int) - (ds.drop point.toNat).length = point - ds.length := by
        rw [List.length_drop]
        omega
      unfold nearest decimal
      rw [List.take_append_drop, hexponent]

theorem nearest_ofScientific (negative : Bool) (hds : ds ≠ []) (point : Int) :
    (ofScientific negative ds (point - 1)).nearest =
      Binary64.ofDecimal negative ⟨Nat.ofDigitChars 10 ds 0, point - ds.length⟩ := by
  have hlength : 0 < ds.length := List.length_pos_iff.2 hds
  have hexponent : point - 1 - (ds.drop 1).length = point - ds.length := by
    rw [List.length_drop]
    omega
  unfold ofScientific nearest decimal
  rw [List.take_append_drop, hexponent]

/-! ## Floating-point numbers -/

/-- The numeral of a decimal other than zero. -/
def ofDecimal (negative : Bool) (d : Decimal) : Numeral :=
  if numberStyle.positional (d.point - 1) then ofPositional negative d.digits d.point
  else ofScientific negative d.digits (d.point - 1)

/-- The text of a decimal, with a sign in front of it or not, is read as its numeral. -/
theorem read?_text (negative : Bool) {d : Decimal} (h : d.significand ≠ 0)
    (hrest : Delimited rest) :
    read? ((if negative then ['-'] else []) ++ ((d.text numberStyle).toList ++ rest)) =
      some (ofDecimal negative d, rest) := by
  have hds := isLeading_digits h
  unfold Decimal.text ofDecimal
  rw [String.toList_ofList]
  by_cases hstyle : numberStyle.positional (d.point - 1) = true
  · rw [if_pos hstyle, if_pos hstyle]
    exact read?_positionalText negative hds d.point hrest
  · rw [if_neg hstyle, if_neg hstyle]
    exact read?_scientificText negative hds (d.point - 1) hrest

theorem nearest_ofDecimal (negative : Bool) {d : Decimal} (h : d.significand ≠ 0) :
    (ofDecimal negative d).nearest = Binary64.ofDecimal negative d := by
  rw [← Binary64.ofDecimal_stripped negative d]
  unfold ofDecimal
  split
  · exact nearest_ofPositional negative d.digits d.point
  · exact nearest_ofScientific negative (Decimal.digits_ne_nil h) d.point

/-- A numeral with a point or a power of ten is never kept as an integer. -/
theorem int64?_ofDecimal (negative : Bool) (d : Decimal) :
    (ofDecimal negative d).int64? = none := by
  have hinteger : (ofDecimal negative d).isInteger = false := by
    unfold ofDecimal ofPositional
    split
    · split
      · rfl
      · split <;> rfl
    · rfl
  unfold int64?
  rw [hinteger, if_neg (fun h => Bool.false_ne_true h.1)]

/-- The numeral of a finite number that is no integer. -/
def ofBinary64 (x : Binary64) : Numeral := ofDecimal x.isNegative (x.shortest .toEven)

variable {x : Binary64}

theorem read?_floatText (finite : x.isFinite = true) (h : x.units ≠ 0) (hrest : Delimited rest) :
    read? ((floatText x).toList ++ rest) = some (ofBinary64 x, rest) := by
  have hordinal : x.ordinal < Binary64.infinityOrdinal := of_decide_eq_true finite
  have hsign : (if x.isNegative then "-" else "").toList =
      if x.isNegative then ['-'] else [] := by split <;> rfl
  unfold floatText
  rw [if_neg (not_not.2 finite), if_neg h, Binary64.text, String.toList_append, hsign,
    List.append_assoc]
  exact read?_text x.isNegative (Binary64.significand_shortest_ne_zero .toEven hordinal h) hrest

theorem int64?_ofBinary64 (x : Binary64) : (ofBinary64 x).int64? = none := int64?_ofDecimal _ _

theorem nearest_ofBinary64 (finite : x.isFinite = true) (h : x.units ≠ 0) :
    (ofBinary64 x).nearest = x := by
  have hordinal : x.ordinal < Binary64.infinityOrdinal := of_decide_eq_true finite
  unfold ofBinary64
  rw [nearest_ofDecimal _ (Binary64.significand_shortest_ne_zero .toEven hordinal h)]
  exact Binary64.ofDecimal_shortest .toEven hordinal h

/-! ## Numerals that are read as the nearest number -/

theorem le_ofDigitChars (ds : List Char) (significand : Nat) :
    significand ≤ Nat.ofDigitChars 10 ds significand := by
  have hten : 0 < 10 ^ ds.length := Nat.pow_pos (by decide)
  rw [Nat.ofDigitChars_eq_ofDigitChars_zero]
  exact (Nat.le_mul_of_pos_left significand hten).trans (Nat.le_add_right _ _)

theorem absorb_of_lt {significand : Nat} (h : Nat.ofDigitChars 10 ds significand < 2 ^ (64 : Nat)) :
    absorb significand ds = (Nat.ofDigitChars 10 ds significand, []) := by
  induction ds generalizing significand with
  | nil => rfl
  | cons d ds ih =>
    have hnext : significand * 10 + (d.toNat - '0'.toNat) =
        10 * significand + (d.toNat - '0'.toNat) := by omega
    rw [Nat.ofDigitChars_cons] at h ⊢
    unfold absorb
    simp only [hnext]
    rw [if_pos (Nat.lt_of_le_of_lt (le_ofDigitChars ds _) h)]
    exact ih h

/-- No digit is left out of a significand that 64 bits hold. -/
theorem leading_of_lt {n : Numeral} (h : n.decimal.significand < 2 ^ (64 : Nat)) :
    n.leading = n.decimal := by
  have hsignificand : n.decimal.significand =
      Nat.ofDigitChars 10 n.fraction (Nat.ofDigitChars 10 n.whole 0) := Nat.ofDigitChars_append _
  have hfraction := absorb_of_lt (hsignificand ▸ h)
  have hwhole := absorb_of_lt (Nat.lt_of_le_of_lt (le_ofDigitChars n.fraction _) (hsignificand ▸ h))
  have hexponent : ((0 : Nat) : Int) + (0 : Nat) - n.fraction.length + n.power =
      n.power - n.fraction.length := by omega
  unfold leading
  simp only [hwhole, hfraction, ← hsignificand, List.length_nil, hexponent]
  rfl

/-- A significand up to `2^53` and a power of ten that is a floating-point number. -/
def IsShort (n : Numeral) : Prop :=
  n.decimal.significand ≤ Binary64.wholeBound ∧ n.decimal.exponent.natAbs ≤ 22

instance (n : Numeral) : Decidable n.IsShort :=
  inferInstanceAs (Decidable (_ ∧ _))

/-- Documents are read exactly where numerals are short. -/
theorem binary64?_eq_nearest {n : Numeral} (h : n.IsShort) (finite : n.nearest.isFinite = true) :
    n.binary64? = some n.nearest := by
  obtain ⟨hsignificand, hexponent⟩ := h
  have hlt : n.decimal.significand < 2 ^ (64 : Nat) :=
    Nat.lt_of_le_of_lt hsignificand (by decide)
  unfold binary64?
  rw [leading_of_lt hlt]
  exact Binary64.scale?_nearest hsignificand hexponent finite

end Numeral

end StateTree.Json
