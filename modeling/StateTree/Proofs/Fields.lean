import Mathlib.Data.List.Forall2
import Mathlib.Data.List.Nodup
import Mathlib.Data.List.Perm.Subperm
import StateTree.Fields

/-
  Lists side by side. Two lists of fields with the same names, such as the entries of a record and
  the nodes built from them, answer every name at the same position (`get?_zip`), and writing a new
  name appends it (`insert_new`).
-/

namespace StateTree

section Lists

variable {α β γ : Type}

theorem exists_of_forall₂ {R : α → β → Prop} {as : List α} {bs : List β}
    (h : List.Forall₂ R as bs) {a : α} (hm : a ∈ as) : ∃ b, R a b := by
  induction h with
  | nil => simp at hm
  | cons hr _ ih =>
    rcases List.mem_cons.1 hm with rfl | hm
    · exact ⟨_, hr⟩
    · exact ih hm

/-- What holds of a whole list from its first member on holds of each member. -/
theorem forall_mem_of_cons {P : α → Prop} {All : List α → Prop}
    (hcons : ∀ {x : α} {rest : List α}, All (x :: rest) → P x ∧ All rest) {xs : List α}
    (h : All xs) : ∀ x ∈ xs, P x := by
  induction xs with
  | nil => simp
  | cons x rest ih => exact List.forall_mem_cons.2 ⟨(hcons h).1, ih (hcons h).2⟩

/-- Two lists that go with a third go with each other. -/
theorem forall₂_of_forall₂ {R : α → β → Prop} {S : α → γ → Prop} {T : β → γ → Prop}
    {as : List α} {bs : List β} {cs : List γ} (hR : List.Forall₂ R as bs)
    (hS : List.Forall₂ S as cs) (h : ∀ a ∈ as, ∀ b c, R a b → S a c → T b c) :
    List.Forall₂ T bs cs := by
  induction hR generalizing cs with
  | nil => cases hS; exact .nil
  | cons hr _ ih =>
    cases hS with
    | cons hs hS =>
      exact .cons (h _ List.mem_cons_self _ _ hr hs)
        (ih hS fun a ha => h a (List.mem_cons_of_mem _ ha))

/-- Lists that go with two lists side by side go with each other. -/
theorem forall₂_of_forall₂_zip {δ : Type} {R : α → γ → Prop} {S : β → δ → Prop} {T : γ → δ → Prop}
    {as : List α} {bs : List β} {cs : List γ} {ds : List δ} (hlen : as.length = bs.length)
    (hR : List.Forall₂ R as cs) (hS : List.Forall₂ S bs ds)
    (h : ∀ p ∈ as.zip bs, ∀ c d, R p.1 c → S p.2 d → T c d) : List.Forall₂ T cs ds := by
  induction hR generalizing bs ds with
  | nil =>
    cases List.length_eq_zero_iff.1 hlen.symm
    cases hS
    exact .nil
  | @cons a c as cs hr _ ih =>
    cases hS with
    | nil => simp at hlen
    | @cons b d bs ds hs hS =>
      exact .cons (h (a, b) List.mem_cons_self _ _ hr hs)
        (ih (Nat.succ.inj hlen) hS fun p hm => h p (List.mem_cons_of_mem _ hm))

/-- Where two lists stand side by side, each of the second one has a partner. -/
theorem exists_mem_zip {as : List α} {bs : List β} (h : as.length = bs.length) {b : β}
    (hb : b ∈ bs) : ∃ a, (a, b) ∈ as.zip bs := by
  rw [← List.map_snd_zip (Nat.le_of_eq h.symm)] at hb
  obtain ⟨⟨a, b'⟩, hm, rfl⟩ := List.mem_map.1 hb
  exact ⟨a, hm⟩

end Lists

namespace Fields

variable {α β : Type}

theorem names_append (front back : Fields α) :
    names (front ++ back) = front.names ++ back.names := List.map_append

theorem get?_append (front back : Fields α) (name : String) :
    get? (front ++ back) name = (front.get? name).or (back.get? name) := by
  induction front with
  | nil => rfl
  | cons entry rest ih =>
    obtain ⟨first, value⟩ := entry
    rw [List.cons_append, get?_cons, get?_cons, ih]
    by_cases h : name = first <;> simp [h]

theorem insert_new {fields : Fields α} {name : String} (h : name ∉ fields.names) (value : α) :
    fields.insert name value = fields ++ [(name, value)] := by
  induction fields with
  | nil => rfl
  | cons entry rest ih =>
    obtain ⟨first, old⟩ := entry
    rw [names_cons, List.mem_cons, not_or] at h
    simp only [insert, if_neg h.1, ih h.2, List.cons_append]

theorem mem_of_get? {fields : Fields α} {name : String} {value : α}
    (h : fields.get? name = some value) : (name, value) ∈ fields := by
  induction fields with
  | nil => simp at h
  | cons entry rest ih =>
    obtain ⟨first, old⟩ := entry
    rw [get?_cons] at h
    split at h
    · next e =>
      rw [e, ← Option.some.inj h]
      exact List.mem_cons_self
    · exact List.mem_cons_of_mem _ (ih h)

/-- Where no name stands twice, every entry is what its name stands for. -/
theorem get?_of_mem {fields : Fields α} (hd : fields.Distinct) {name : String} {value : α}
    (h : (name, value) ∈ fields) : fields.get? name = some value := by
  induction fields with
  | nil => simp at h
  | cons entry rest ih =>
    obtain ⟨first, old⟩ := entry
    unfold Distinct at hd
    rw [names_cons, List.nodup_cons] at hd
    rw [get?_cons]
    rcases List.mem_cons.1 h with e | h
    · rw [Prod.mk.injEq] at e
      rw [if_pos e.1, e.2]
    · have hn : name ≠ first := fun e => hd.1 (e ▸ List.mem_map_of_mem h)
      rw [if_neg hn]
      exact ih hd.2 h

/-- Lists of the same names answer each name at the same position, or both do not know it. -/
theorem get?_zip {xs : Fields α} {ys : Fields β} (h : xs.names = ys.names) (name : String) :
    (∃ x y, xs.get? name = some x ∧ ys.get? name = some y ∧
        ((name, x), (name, y)) ∈ xs.zip ys) ∨
      (xs.get? name = none ∧ ys.get? name = none) := by
  induction xs generalizing ys with
  | nil =>
    have hy : ys = [] := List.map_eq_nil_iff.1 h.symm
    exact Or.inr ⟨rfl, by rw [hy]; rfl⟩
  | cons entry rest ih =>
    obtain ⟨first, x⟩ := entry
    cases ys with
    | nil => simp [names] at h
    | cons other rest' =>
      obtain ⟨first', y⟩ := other
      rw [names_cons, names_cons, List.cons.injEq] at h
      obtain ⟨rfl, h⟩ := h
      by_cases e : name = first
      · exact Or.inl ⟨x, y, by simp [get?_cons, e]⟩
      · simpa [get?_cons, e] using ih h

theorem length_eq_of_names_eq {xs : Fields α} {ys : Fields β} (h : xs.names = ys.names) :
    xs.length = ys.length := by
  simpa [names] using congrArg List.length h

theorem length_eq_of_perm {xs : Fields α} {ys : Fields β} (h : xs.names.Perm ys.names) :
    xs.length = ys.length := by
  simpa [names] using h.length_eq

theorem isEmpty_eq_of_perm {xs : Fields α} {ys : Fields β} (h : xs.names.Perm ys.names) :
    xs.isEmpty = ys.isEmpty := by
  rw [Bool.eq_iff_iff, List.isEmpty_iff_length_eq_zero, List.isEmpty_iff_length_eq_zero,
    length_eq_of_perm h]

/-- Entries that stand side by side have one name. -/
theorem forall₂_of_zip {P : String × α → String × β → Prop} {xs : Fields α} {ys : Fields β}
    (h : xs.names = ys.names) (hp : ∀ p ∈ xs.zip ys, P p.1 p.2) :
    List.Forall₂ (fun x y => x.1 = y.1 ∧ P x y) xs ys := by
  induction xs generalizing ys with
  | nil => exact (List.map_eq_nil_iff.1 h.symm : ys = []) ▸ .nil
  | cons entry rest ih =>
    cases ys with
    | nil => simp [names] at h
    | cons other rest' =>
      rw [names, names, List.map_cons, List.map_cons, List.cons.injEq] at h
      exact .cons ⟨h.1, hp (entry, other) List.mem_cons_self⟩
        (ih h.2 fun p hm => hp p (List.mem_cons_of_mem _ hm))

/-- Where each of the fields on the left has a partner on the right, and there are no more on the
right, each on the right has a partner on the left. -/
theorem get?_of_get? {R : α → β → Prop} {xs : Fields α} {ys : Fields β} (hx : xs.Distinct)
    (hy : ys.Distinct) (hlen : xs.length = ys.length)
    (h : ∀ name x, (name, x) ∈ xs → ∃ y, ys.get? name = some y ∧ R x y) {name : String} {y : β}
    (hm : (name, y) ∈ ys) : ∃ x, xs.get? name = some x ∧ R x y := by
  have hsub : xs.names ⊆ ys.names := fun name hname => by
    obtain ⟨⟨name, x⟩, hmem, rfl⟩ := List.mem_map.1 hname
    obtain ⟨y, hget, -⟩ := h name x hmem
    exact List.mem_map_of_mem (mem_of_get? hget)
  have hlength : xs.names.length = ys.names.length := by
    rw [names, names, List.length_map, List.length_map, hlen]
  have hperm : xs.names.Perm ys.names :=
    (hx.subperm hsub).perm_of_length_le (Nat.le_of_eq hlength.symm)
  have hname : name ∈ xs.names := hperm.mem_iff.2 (List.mem_map_of_mem hm)
  obtain ⟨⟨name, x⟩, hmem, rfl⟩ := List.mem_map.1 hname
  obtain ⟨y', hget, hr⟩ := h name x hmem
  cases Option.some.inj (hget.symm.trans (get?_of_mem hy hm))
  exact ⟨x, get?_of_mem hx hmem, hr⟩

/-! ## Comparing by name -/

/-- As many fields on either side, and each on the left has one related to it on the right. -/
def same (r : α → α → Bool) (xs ys : Fields α) : Bool :=
  xs.length == ys.length && xs.all fun field => (ys.get? field.1).any (r field.2)

theorem all_get?_iff {r : α → β → Bool} {xs : Fields α} {ys : Fields β} :
    (xs.all fun field => (ys.get? field.1).any (r field.2)) = true ↔
      ∀ name x, (name, x) ∈ xs → ∃ y, ys.get? name = some y ∧ r x y = true := by
  simp only [List.all_eq_true, Option.any_eq_true, Prod.forall]

theorem same_swap {r : α → α → Bool} {xs ys : Fields α} (hx : xs.Distinct) (hy : ys.Distinct)
    (hr : ∀ x ∈ xs, ∀ y ∈ ys, r x.2 y.2 = r y.2 x.2) (h : same r xs ys = true) :
    same r ys xs = true := by
  rw [same, Bool.and_eq_true, beq_iff_eq, all_get?_iff] at h ⊢
  refine ⟨h.1.symm, fun name y hm => ?_⟩
  obtain ⟨x, hget, hsame⟩ := get?_of_get? hx hy h.1 h.2 hm
  exact ⟨x, hget, (hr _ (mem_of_get? hget) _ hm).symm.trans hsame⟩

/-- Where no name stands twice, it makes no difference which fields are compared with the other
ones. -/
theorem same_comm {r : α → α → Bool} {xs ys : Fields α} (hx : xs.Distinct) (hy : ys.Distinct)
    (hr : ∀ x ∈ xs, ∀ y ∈ ys, r x.2 y.2 = r y.2 x.2) : same r xs ys = same r ys xs := by
  rw [Bool.eq_iff_iff]
  exact ⟨same_swap hx hy hr, same_swap hy hx fun y hym x hxm => (hr x hxm y hym).symm⟩

theorem same_self {r : α → α → Bool} {xs : Fields α} (hx : xs.Distinct)
    (hr : ∀ x ∈ xs, r x.2 x.2 = true) : same r xs xs = true := by
  rw [same, BEq.rfl, Bool.true_and, all_get?_iff]
  exact fun name x hm => ⟨x, get?_of_mem hx hm, hr (name, x) hm⟩

/-! ## Fields in the order of their names -/

/-- The same change made to what each name stands for. -/
def mapValues (f : α → β) (fields : Fields α) : Fields β :=
  fields.map fun field => (field.1, f field.2)

@[simp] theorem names_mapValues (f : α → β) (fields : Fields α) :
    (fields.mapValues f).names = fields.names := by
  rw [names, names, mapValues, List.map_map]
  rfl

theorem length_mapValues (f : α → β) (fields : Fields α) :
    (fields.mapValues f).length = fields.length :=
  length_eq_of_names_eq (names_mapValues f fields)

theorem Distinct.mapValues {fields : Fields α} (h : fields.Distinct) (f : α → β) :
    (fields.mapValues f).Distinct := by
  rw [Distinct, names_mapValues]
  exact h

theorem get?_mapValues (f : α → β) (fields : Fields α) (name : String) :
    (fields.mapValues f).get? name = (fields.get? name).map f := by
  induction fields with
  | nil => rfl
  | cons field rest ih =>
    obtain ⟨first, value⟩ := field
    rw [mapValues, List.map_cons, get?_cons, get?_cons, ← mapValues, ih]
    split <;> rfl

theorem mem_mapValues {f : α → β} {fields : Fields α} {name : String} {value : β} :
    (name, value) ∈ fields.mapValues f ↔ ∃ x, (name, x) ∈ fields ∧ f x = value := by
  simp [Fields.mapValues]

def sorted (fields : Fields α) : Fields α := fields.mergeSort fun a b => decide (a.1 ≤ b.1)

theorem sorted_perm (fields : Fields α) : fields.sorted.Perm fields := List.mergeSort_perm _ _

theorem pairwise_sorted (fields : Fields α) : fields.sorted.Pairwise (·.1 ≤ ·.1) := by
  have h : fields.sorted.Pairwise fun a b => decide (a.1 ≤ b.1) = true :=
    List.pairwise_mergeSort (fun a b c => by simpa using String.le_trans)
      (fun a b => by simpa using String.le_total a.1 b.1) fields
  exact h.imp of_decide_eq_true

/-- Sorting tells apart what fields there are, and not their order. -/
theorem sorted_eq_sorted_iff {xs ys : Fields α} (hx : xs.Distinct) :
    xs.sorted = ys.sorted ↔ xs.Perm ys := by
  refine ⟨fun h => xs.sorted_perm.symm.trans (h ▸ ys.sorted_perm), fun h => ?_⟩
  have hperm : xs.sorted.Perm ys.sorted := xs.sorted_perm.trans (h.trans ys.sorted_perm.symm)
  refine hperm.eq_of_pairwise (fun a b ha hb hab hba => ?_) xs.pairwise_sorted ys.pairwise_sorted
  -- Fields of one name are one field, since the name stands once.
  have hname : a.1 = b.1 := String.le_antisymm hab hba
  have ha' := get?_of_mem hx (xs.sorted_perm.mem_iff.1 ha)
  have hb' := get?_of_mem hx (h.mem_iff.2 (ys.sorted_perm.mem_iff.1 hb))
  rw [hname, hb', Option.some.injEq] at ha'
  exact Prod.ext hname ha'.symm

/-- Where equality of values is that of their forms, fields are equal by name exactly if sorting
them brings the forms together. -/
theorem same_iff_sorted {r : α → α → Bool} {f : α → β} {xs ys : Fields α} (hx : xs.Distinct)
    (hy : ys.Distinct) (h : ∀ x ∈ xs, ∀ y ∈ ys, (r x.2 y.2 = true ↔ f x.2 = f y.2)) :
    same r xs ys = true ↔ (xs.mapValues f).sorted = (ys.mapValues f).sorted := by
  rw [sorted_eq_sorted_iff (hx.mapValues f), same, Bool.and_eq_true, beq_iff_eq, all_get?_iff]
  constructor
  · rintro ⟨hlen, hall⟩
    have hsub : xs.mapValues f ⊆ ys.mapValues f := fun ⟨name, value⟩ hm => by
      obtain ⟨x, hx, rfl⟩ := mem_mapValues.1 hm
      obtain ⟨y, hget, hr⟩ := hall name x hx
      have hy := mem_of_get? hget
      exact mem_mapValues.2 ⟨y, hy, ((h _ hx _ hy).1 hr).symm⟩
    have hnodup : (xs.mapValues f).Nodup := List.Nodup.of_map _ (hx.mapValues f)
    refine (hnodup.subperm hsub).perm_of_length_le (Nat.le_of_eq ?_)
    rw [length_mapValues, length_mapValues, hlen]
  · intro hperm
    refine ⟨?_, fun name x hm => ?_⟩
    · rw [← length_mapValues f xs, ← length_mapValues f ys, hperm.length_eq]
    · have hmem : (name, f x) ∈ ys.mapValues f := hperm.subset (mem_mapValues.2 ⟨x, hm, rfl⟩)
      obtain ⟨y, hym, hf⟩ := mem_mapValues.1 hmem
      exact ⟨y, get?_of_mem hy hym, (h _ hm _ hym).2 hf.symm⟩

end Fields

end StateTree
