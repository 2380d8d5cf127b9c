import StateTree.Proofs.Fields
import StateTree.Proofs.Number.Order
import StateTree.Value.Same

/-
  Equality of values. Objects are compared from the left, each of their fields being looked for on
  the right. Where no name stands twice, it makes no difference which value is on the left
  (`same_comm`), a value equals itself (`same_self`), and reordering fields keeps it equal
  (`same_of_reordered`).
-/

namespace StateTree

theorem Number.same_comm (a b : Number) : a.same b = b.same a := by
  rw [Bool.eq_iff_iff, same_iff, same_iff, compare_swap a b]
  cases a.compare b <;> simp

namespace Value

mutual

/-- No object and no instance at any depth has two fields of one name. -/
def NamesDistinct : Value → Prop
  | .array items => ItemsDistinct items
  | .object fields => Fields.Distinct fields ∧ FieldsDistinct fields
  | .instanceOf _ fields => Fields.Distinct fields ∧ FieldsDistinct fields
  | _ => True

def ItemsDistinct : List Value → Prop
  | [] => True
  | v :: rest => NamesDistinct v ∧ ItemsDistinct rest

def FieldsDistinct : List (String × Value) → Prop
  | [] => True
  | (_, v) :: rest => NamesDistinct v ∧ FieldsDistinct rest

end

theorem sameFields_eq_all (xs ys : List (String × Value)) :
    sameFields xs ys = xs.all fun field => (Fields.get? ys field.1).any field.2.same := by
  induction xs with
  | nil => rfl
  | cons field rest ih =>
    rw [sameFields, ih, List.all_cons]
    cases Fields.get? ys field.1 <;> rfl

theorem sameFields_iff {xs ys : List (String × Value)} :
    sameFields xs ys = true ↔
      ∀ name x, (name, x) ∈ xs → ∃ y, Fields.get? ys name = some y ∧ x.same y = true := by
  rw [sameFields_eq_all, Fields.all_get?_iff]

theorem sameFields_of_mem {xs ys : List (String × Value)} (hd : Fields.Distinct ys)
    (h : ∀ name x, (name, x) ∈ xs → ∃ y, (name, y) ∈ ys ∧ x.same y = true) :
    sameFields xs ys = true := by
  refine sameFields_iff.2 fun name x hm => ?_
  obtain ⟨y, hy, hsame⟩ := h name x hm
  exact ⟨y, Fields.get?_of_mem hd hy, hsame⟩

theorem namesDistinct_of_mem_items {items : List Value} (h : ItemsDistinct items) :
    ∀ v ∈ items, v.NamesDistinct :=
  forall_mem_of_cons (fun h => h) h

theorem namesDistinct_of_mem_fields {fields : List (String × Value)} (h : FieldsDistinct fields) :
    ∀ field ∈ fields, field.2.NamesDistinct :=
  forall_mem_of_cons (fun h => h) h

/-! ## Swapping sides -/

theorem sameObject_comm {xs ys : List (String × Value)} (hx : Fields.Distinct xs)
    (hy : Fields.Distinct ys) (hcomm : ∀ x ∈ xs, ∀ y ∈ ys, x.2.same y.2 = y.2.same x.2) :
    (xs.length == ys.length && sameFields xs ys) =
      (ys.length == xs.length && sameFields ys xs) := by
  rw [sameFields_eq_all, sameFields_eq_all]
  exact Fields.same_comm hx hy hcomm

mutual

/-- It makes no difference which of two values is compared with the other. -/
theorem same_comm : ∀ {v w : Value}, v.NamesDistinct → w.NamesDistinct → v.same w = w.same v
  | .null, w, _, _ => by cases w <;> rfl
  | .bool a, w, _, _ => by
    cases w with
    | bool b => exact BEq.comm
    | _ => rfl
  | .number m, w, _, _ => by
    cases w with
    | number n => exact Number.same_comm m n
    | _ => rfl
  | .string s, w, _, _ => by
    cases w with
    | string t => exact BEq.comm
    | _ => rfl
  | .symbol s, w, _, _ => by
    cases w with
    | symbol t => exact BEq.comm
    | _ => rfl
  | .function s, w, _, _ => by
    cases w with
    | function t => exact BEq.comm
    | _ => rfl
  | .array xs, w, hv, hw => by
    cases w with
    | array ys => exact sameItems_comm hv hw
    | _ => rfl
  | .object xs, w, hv, hw => by
    cases w with
    | object ys => exact sameObject_comm hv.1 hw.1 fun x hx y hy =>
        same_comm_of_mem hv.2 hx (namesDistinct_of_mem_fields hw.2 _ hy)
    | _ => rfl
  | .instanceOf c xs, w, hv, hw => by
    cases w with
    | instanceOf d ys =>
      have hfields := sameObject_comm hv.1 hw.1 fun x hx y hy =>
        same_comm_of_mem hv.2 hx (namesDistinct_of_mem_fields hw.2 _ hy)
      rw [same, same, hfields]
      exact congrArg (· && _) BEq.comm
    | _ => rfl

theorem sameItems_comm : ∀ {xs ys : List Value}, ItemsDistinct xs → ItemsDistinct ys →
    sameItems xs ys = sameItems ys xs
  | [], ys, _, _ => by cases ys <;> rfl
  | x :: xs, ys, hx, hy => by
    cases ys with
    | nil => rfl
    | cons y ys => rw [sameItems, sameItems, same_comm hx.1 hy.1, sameItems_comm hx.2 hy.2]

theorem same_comm_of_mem : ∀ {xs : List (String × Value)}, FieldsDistinct xs →
    ∀ {field : String × Value}, field ∈ xs → ∀ {w : Value}, w.NamesDistinct →
      field.2.same w = w.same field.2
  | [], _, field, hm, _, _ => by simp at hm
  | (name, v) :: rest, hx, field, hm, w, hw => by
    rcases List.mem_cons.1 hm with rfl | hm
    · exact same_comm hx.1 hw
    · exact same_comm_of_mem hx.2 hm hw

end

/-! ## A value and itself -/

theorem sameObject_self {xs : List (String × Value)} (hd : Fields.Distinct xs)
    (h : ∀ x ∈ xs, x.2.same x.2 = true) : (xs.length == xs.length && sameFields xs xs) = true := by
  rw [sameFields_eq_all]
  exact Fields.same_self hd h

mutual

/-- A value equals itself. -/
theorem same_self : ∀ {v : Value}, v.NamesDistinct → v.same v = true
  | .null, _ => rfl
  | .bool a, _ => beq_self_eq_true a
  | .number n, _ => Number.same_self n
  | .string s, _ => beq_self_eq_true s
  | .symbol s, _ => beq_self_eq_true s
  | .function s, _ => beq_self_eq_true s
  | .array xs, h => sameItems_self h
  | .object xs, h => sameObject_self h.1 (same_self_of_mem h.2)
  | .instanceOf c xs, h => by
    rw [same, sameObject_self h.1 (same_self_of_mem h.2), Bool.and_true]
    exact BEq.rfl

theorem sameItems_self : ∀ {xs : List Value}, ItemsDistinct xs → sameItems xs xs = true
  | [], _ => rfl
  | x :: xs, h => by rw [sameItems, same_self h.1, sameItems_self h.2, Bool.and_self]

theorem same_self_of_mem : ∀ {xs : List (String × Value)}, FieldsDistinct xs →
    ∀ x ∈ xs, x.2.same x.2 = true
  | [], _, x, hm => by simp at hm
  | (name, v) :: rest, h, x, hm => by
    rcases List.mem_cons.1 hm with rfl | hm
    · exact same_self h.1
    · exact same_self_of_mem h.2 x hm

end

/-! ## Reordered fields -/

/-- Two values agree, with the items of arrays in order and with fields by name, down to values that
`R` relates. -/
inductive Matched (R : Value → Value → Prop) : Value → Value → Prop
  | related {v w : Value} (h : R v w) : Matched R v w
  | array {xs ys : List Value} (hlen : xs.length = ys.length)
      (h : ∀ p ∈ xs.zip ys, Matched R p.1 p.2) : Matched R (.array xs) (.array ys)
  | object {xs ys : Fields Value} (hnames : xs.names.Perm ys.names)
      (h : ∀ name x y, xs.get? name = some x → ys.get? name = some y → Matched R x y) :
      Matched R (.object xs) (.object ys)
  | instanceOf {className : String} {xs ys : Fields Value} (hnames : xs.names.Perm ys.names)
      (h : ∀ name x y, xs.get? name = some x → ys.get? name = some y → Matched R x y) :
      Matched R (.instanceOf className xs) (.instanceOf className ys)

/-- Two values are the same but for the order of fields, at any depth. -/
abbrev Reordered : Value → Value → Prop := Matched (· = ·)

theorem sameItems_iff_forall₂ {xs ys : List Value} :
    sameItems xs ys = true ↔ List.Forall₂ (fun x y => x.same y = true) xs ys := by
  induction xs generalizing ys with
  | nil => cases ys <;> simp [sameItems]
  | cons x xs ih => cases ys <;> simp [sameItems, ih]

theorem sameObject_of_get? {xs ys : Fields Value} (hx : xs.Distinct)
    (hnames : xs.names.Perm ys.names)
    (h : ∀ x ∈ xs, ∀ y, xs.get? x.1 = some x.2 → ys.get? x.1 = some y → x.2.same y = true) :
    (xs.length == ys.length && sameFields xs ys) = true := by
  rw [Fields.length_eq_of_perm hnames, BEq.rfl, Bool.true_and, sameFields_iff]
  intro name x hm
  have hname : name ∈ ys.names := hnames.mem_iff.1 (List.mem_map_of_mem hm)
  obtain ⟨y, hy⟩ := Option.isSome_iff_exists.1 ((Fields.mem_names_iff ys name).1 hname)
  exact ⟨y, hy, h _ hm y (Fields.get?_of_mem hx hm) hy⟩

/-- The order of fields makes no difference. -/
theorem same_of_reordered {v w : Value} (h : Reordered v w) (hv : v.NamesDistinct) :
    v.same w = true := by
  induction h with
  | related h => exact h ▸ same_self hv
  | array hlen _ ih =>
    exact sameItems_iff_forall₂.2 (List.forall₂_iff_zip.2 ⟨hlen, fun hp =>
      ih _ hp (namesDistinct_of_mem_items hv _ (List.of_mem_zip hp).1)⟩)
  | object hnames _ ih =>
    exact sameObject_of_get? hv.1 hnames fun x hm y hx hy =>
      ih _ _ _ hx hy (namesDistinct_of_mem_fields hv.2 _ hm)
  | instanceOf hnames _ ih =>
    rw [same, BEq.rfl, Bool.true_and]
    exact sameObject_of_get? hv.1 hnames fun x hm y hx hy =>
      ih _ _ _ hx hy (namesDistinct_of_mem_fields hv.2 _ hm)

end Value

end StateTree
