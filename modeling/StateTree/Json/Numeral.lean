import StateTree.Binary64.Scaling
import StateTree.Number

/-
  Numbers of JSON text. A numeral with neither point nor power of ten is an integer, and one that
  64 bits hold is kept as such, but for minus zero. Every other numeral is a floating-point
  number: its leading digits, as many as 64 bits hold, scaled by a power of ten in rounded steps.
  So it can lie a few places off the number nearest to the numeral. A numeral too large for any
  finite number has no value.
-/

namespace StateTree.Json

structure Numeral where
  negative : Bool
  whole : List Char
  fraction : List Char
  power : Int
  isInteger : Bool

namespace Numeral

/-- The integer of a numeral without point and power of ten. -/
def toInt (n : Numeral) : Int :=
  let magnitude : Nat := Nat.ofDigitChars 10 n.whole 0
  if n.negative then -magnitude else magnitude

/-- The integer that a numeral is kept as. Minus zero is not kept as one. -/
def int64? (n : Numeral) : Option Int64 :=
  if n.isInteger ∧ ¬ (n.negative ∧ n.toInt = 0) then
    match Number.ofInt n.toInt with
    | .int i => some i
    | .float _ => none
  else none

open Binary64 in
/-- Appends digits to a number while 64 bits hold it, and gives the digits that are left. -/
def absorb (significand : Nat) : List Char → Nat × List Char
  | [] => (significand, [])
  | d :: ds =>
    let next := significand * 10 + (d.toNat - '0'.toNat)
    if next < 2 ^ (64 : Nat) then absorb next ds else (significand, d :: ds)

/-- The leading digits that 64 bits hold, with their power of ten. Digits of the whole part that
are left out count for the power; a digit after the point is tried even then. -/
def leading (n : Numeral) : Decimal :=
  let whole := absorb 0 n.whole
  let fraction := absorb whole.1 n.fraction
  ⟨fraction.1, whole.2.length + fraction.2.length - n.fraction.length + n.power⟩

/-- The floating-point number that a numeral stands for, unless it is too large. -/
def binary64? (n : Numeral) : Option Binary64 :=
  (Binary64.nearest n.negative n.leading.significand 1).scale? n.leading.exponent

/-- The number that a numeral stands for, where `float?` reads what is not kept as an integer. -/
def numberBy? (float? : Numeral → Option Binary64) (n : Numeral) : Option Number :=
  match n.int64? with
  | some i => some (.int i)
  | none => (float? n).map .float

theorem numberBy?_of_some {float? : Numeral → Option Binary64} {n : Numeral} {i : Int64}
    (h : n.int64? = some i) : n.numberBy? float? = some (.int i) := by
  unfold numberBy?
  rw [h]

theorem numberBy?_of_none {float? : Numeral → Option Binary64} {n : Numeral} (h : n.int64? = none) :
    n.numberBy? float? = (float? n).map .float := by
  unfold numberBy?
  rw [h]

/-! ## Reading -/

/-- The digits after a point, if there is one, and what follows them. -/
def fraction? : List Char → Option (List Char × List Char)
  | '.' :: rest =>
    if rest.takeWhile Char.isDigit = [] then none
    else some (rest.takeWhile Char.isDigit, rest.dropWhile Char.isDigit)
  | rest => some ([], rest)

/-- The signed digits of a power of ten. -/
def signed? (negative : Bool) (cs : List Char) : Option (Int × List Char) :=
  let magnitude : Nat := Nat.ofDigitChars 10 (cs.takeWhile Char.isDigit) 0
  if cs.takeWhile Char.isDigit = [] then none
  else some (if negative then -magnitude else magnitude, cs.dropWhile Char.isDigit)

/-- The power of ten, if there is one, and what follows it. -/
def power? : List Char → Option (Option Int × List Char)
  | c :: rest =>
    if c = 'e' ∨ c = 'E' then
      match rest with
      | '+' :: rest => (signed? false rest).map fun p => (some p.1, p.2)
      | '-' :: rest => (signed? true rest).map fun p => (some p.1, p.2)
      | rest => (signed? false rest).map fun p => (some p.1, p.2)
    else some (none, c :: rest)
  | [] => some (none, [])

/-- A numeral without its sign. A zero in front stands alone. -/
def unsigned? (negative : Bool) (cs : List Char) : Option (Numeral × List Char) :=
  let whole := cs.takeWhile Char.isDigit
  if whole = [] ∨ (whole.head? = some '0' ∧ 1 < whole.length) then none
  else do
    let (fraction, rest) ← fraction? (cs.dropWhile Char.isDigit)
    let (power, rest) ← power? rest
    return (⟨negative, whole, fraction, power.getD 0, fraction.isEmpty && power.isNone⟩, rest)

/-- The numeral at the front of a text, and what follows it. -/
def read? : List Char → Option (Numeral × List Char)
  | '-' :: rest => unsigned? true rest
  | cs => unsigned? false cs

/-! ## A numeral takes up text -/

theorem length_dropWhile_le (p : Char → Bool) (cs : List Char) :
    (cs.dropWhile p).length ≤ cs.length := (List.dropWhile_suffix p).length_le

theorem fraction?_length {cs ds rest : List Char} (h : fraction? cs = some (ds, rest)) :
    rest.length ≤ cs.length := by
  unfold fraction? at h
  split at h
  · split at h
    · simp at h
    · simp at h
      have := length_dropWhile_le Char.isDigit (by assumption)
      rw [← h.2]
      simp
      omega
  · simp at h
    simp [h.2]

theorem signed?_length {negative : Bool} {cs rest : List Char} {power : Int}
    (h : signed? negative cs = some (power, rest)) : rest.length ≤ cs.length := by
  unfold signed? at h
  simp only at h
  split at h
  · simp at h
  · simp at h
    exact h.2 ▸ length_dropWhile_le _ _

theorem power?_length {cs rest : List Char} {power : Option Int}
    (h : power? cs = some (power, rest)) : rest.length ≤ cs.length := by
  have map {negative : Bool} {tail : List Char}
      (h : (signed? negative tail).map (fun p => (some p.1, p.2)) = some (power, rest)) :
      rest.length ≤ tail.length := by
    obtain ⟨⟨i, r⟩, hs, e⟩ := Option.map_eq_some_iff.1 h
    simp at e
    exact e.2 ▸ signed?_length hs
  unfold power? at h
  split at h
  · split at h
    · split at h
      all_goals
        have := map h
        simp only [List.length_cons]
        omega
    · simp at h
      simp [← h.2]
  · simp at h
    simp [← h.2]

theorem unsigned?_length {negative : Bool} {cs rest : List Char} {n : Numeral}
    (h : unsigned? negative cs = some (n, rest)) : rest.length < cs.length := by
  unfold unsigned? at h
  simp only at h
  split at h
  · simp at h
  · next hw =>
    have hne : cs.takeWhile Char.isDigit ≠ [] := fun e => hw (Or.inl e)
    have hsum := congrArg List.length
      (List.takeWhile_append_dropWhile (p := Char.isDigit) (l := cs))
    have hpos := List.length_pos_iff.2 hne
    rw [List.length_append] at hsum
    simp only [Option.bind_eq_bind, Option.bind_eq_some_iff] at h
    obtain ⟨⟨ds, r1⟩, hf, ⟨p, r2⟩, hp, e⟩ := h
    simp at e
    have h1 : r1.length ≤ _ := fraction?_length hf
    have h2 : r2.length ≤ r1.length := power?_length hp
    rw [← e.2]
    omega

theorem read?_length {cs rest : List Char} {n : Numeral} (h : read? cs = some (n, rest)) :
    rest.length < cs.length := by
  unfold read? at h
  split at h
  · have := unsigned?_length h
    simp only [List.length_cons]
    omega
  · exact unsigned?_length h

end Numeral

end StateTree.Json
