import Mathlib.Data.List.Basic

/-
  The order of texts. Texts are compared by their code points, one after the other. Main statement:
  that is the order of their bytes in UTF-8 (`bytes_lt_iff`), since the first byte of a character
  tells how many follow it, and with them it spells the code point in digits of six bits.
-/

namespace StateTree.Text

/-- The text in UTF-8. -/
def bytes (text : String) : List UInt8 := text.toUTF8.data.toList

theorem bytes_eq (text : String) : bytes text = text.toList.flatMap String.utf8EncodeChar := by
  unfold bytes String.toUTF8
  rw [← String.utf8Encode_toList, List.utf8Encode, List.toList_data_toByteArray]

/-! ## One character -/

section OneCharacter

variable {v w : Nat} {xs ys : List UInt8}

theorem ofNat_cons_lt (hw : w < 256) (h : v < w ∨ v = w ∧ xs < ys) :
    UInt8.ofNat v :: xs < UInt8.ofNat w :: ys := by
  rw [List.cons_lt_cons_iff, UInt8.lt_iff_toNat_lt, UInt8.toNat_ofNat', UInt8.toNat_ofNat']
  rcases h with hlt | ⟨rfl, hrest⟩
  · exact Or.inl (by omega)
  · exact Or.inr ⟨rfl, hrest⟩

/-- A byte that is not the first of its character holds one digit. -/
theorem digit_cons_lt (h : v % 64 < w % 64 ∨ v % 64 = w % 64 ∧ xs < ys) :
    UInt8.ofNat (v % 64 + 128) :: xs < UInt8.ofNat (w % 64 + 128) :: ys :=
  ofNat_cons_lt (by omega) (h.imp (by omega) fun ⟨e, hrest⟩ => ⟨by rw [e], hrest⟩)

/-- What follows two different characters makes no difference. -/
theorem utf8EncodeChar_append_lt {c d : Char} (h : c < d) (xs ys : List UInt8) :
    String.utf8EncodeChar c ++ xs < String.utf8EncodeChar d ++ ys := by
  have hlt : c.val.toNat < d.val.toNat := UInt32.lt_iff_toNat_lt.1 h
  have hmax : d.val.toNat < 0x110000 := by
    have hvalid := d.valid
    simp only [UInt32.isValidChar, Nat.isValidChar] at hvalid
    omega
  unfold String.utf8EncodeChar
  dsimp only
  generalize c.val.toNat = v at *
  generalize d.val.toNat = w at *
  -- From the left, the code points agree in their digits up to one that is less.
  have hlast : v / 64 < w / 64 ∨ v / 64 = w / 64 ∧ v % 64 < w % 64 := by omega
  have hthird : v / 4096 < w / 4096 ∨
      v / 4096 = w / 4096 ∧ v / 64 % 64 < w / 64 % 64 ∨ v / 64 = w / 64 := by omega
  have hsecond : v / 262144 < w / 262144 ∨
      v / 262144 = w / 262144 ∧ v / 4096 % 64 < w / 4096 % 64 ∨ v / 4096 = w / 4096 := by omega
  -- The first byte decides, unless both characters take the same number of bytes.
  split_ifs <;> refine ofNat_cons_lt (by omega) ?_ <;> try omega
  · rcases hlast with hlead | ⟨e, hdigit⟩
    · exact Or.inl (by omega)
    · exact Or.inr ⟨by rw [e], digit_cons_lt (Or.inl hdigit)⟩
  · rcases hthird with hlead | ⟨e, hdigit⟩ | e
    · exact Or.inl (by omega)
    · exact Or.inr ⟨by rw [e], digit_cons_lt (Or.inl hdigit)⟩
    · exact Or.inr ⟨by omega, digit_cons_lt (Or.inr ⟨by rw [e], digit_cons_lt (by omega)⟩)⟩
  · rcases hsecond with hlead | ⟨e, hdigit⟩ | e
    · exact Or.inl (by omega)
    · exact Or.inr ⟨by rw [e], digit_cons_lt (Or.inl hdigit)⟩
    · refine Or.inr ⟨by omega, digit_cons_lt (Or.inr ⟨by rw [e], ?_⟩)⟩
      rcases hthird with hlead | ⟨-, hdigit⟩ | e
      · omega
      · exact digit_cons_lt (Or.inl hdigit)
      · exact digit_cons_lt (Or.inr ⟨by rw [e], digit_cons_lt (by omega)⟩)

end OneCharacter

/-! ## Texts -/

theorem flatMap_lt_of_lt {cs ds : List Char} (h : cs < ds) :
    cs.flatMap String.utf8EncodeChar < ds.flatMap String.utf8EncodeChar := by
  induction cs generalizing ds with
  | nil =>
    cases ds with
    | nil => exact absurd h (List.lt_irrefl _)
    | cons d ds =>
      rw [List.flatMap_cons]
      cases he : String.utf8EncodeChar d with
      | nil => exact absurd he String.utf8EncodeChar_ne_nil
      | cons first rest => exact List.nil_lt_cons _ _
  | cons c cs ih =>
    cases ds with
    | nil => exact absurd h (List.not_lt_nil _)
    | cons d ds =>
      rw [List.flatMap_cons, List.flatMap_cons]
      rcases List.cons_lt_cons_iff.1 h with hlt | ⟨rfl, hrest⟩
      · exact utf8EncodeChar_append_lt hlt _ _
      · exact List.append_left_lt (ih hrest)

theorem bytes_lt_iff {s t : String} : bytes s < bytes t ↔ s < t := by
  have hmono : ∀ {s t : String}, s < t → bytes s < bytes t := fun h => by
    rw [bytes_eq, bytes_eq]
    exact flatMap_lt_of_lt (String.lt_iff.1 h)
  refine ⟨fun h => ?_, hmono⟩
  by_contra hle
  rcases Std.le_iff_lt_or_eq.1 (String.not_lt.1 hle) with hlt | rfl
  · exact List.lt_irrefl _ (Std.lt_trans h (hmono hlt))
  · exact List.lt_irrefl _ h

theorem bytes_le_of_le {s t : String} (h : s ≤ t) : bytes s ≤ bytes t :=
  List.not_lt.1 fun hlt => Std.lt_irrefl (Std.lt_of_lt_of_le (bytes_lt_iff.1 hlt) h)

end StateTree.Text
