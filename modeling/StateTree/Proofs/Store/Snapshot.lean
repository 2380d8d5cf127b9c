import Mathlib.Data.Finset.Card
import Mathlib.Data.Finset.Range
import Mathlib.Order.Monotone.Basic
import StateTree.Proofs.Store.Extension
import StateTree.Proofs.Value.Plain
import StateTree.Store.Tree

/-
  Trees and snapshots without a bound on their depth. A tree is searched for with as many levels
  as the store has identities. That is enough: each level that still adds a tree adds one for an
  identity that had none (`treeWithin?_of_size_le`). Hence the tree of a node is given by the
  trees of the nodes that it owns (`tree?_eq`), and so is its snapshot (`value?_list`,
  `value?_composite`), also where instances count as objects (`plainValue?`). A closed store gives
  the same trees as any store that extends it (`Extends.tree?`).
-/

namespace StateTree

/-! ## Partial functions over lists -/

section MapM

variable {α β γ : Type}

theorem mapM_congr {f g : α → Option β} {l : List α} (h : ∀ a ∈ l, f a = g a) :
    l.mapM f = l.mapM g := by
  induction l with
  | nil => rfl
  | cons a l ih =>
    rw [List.mapM_cons, List.mapM_cons, h a List.mem_cons_self,
      ih fun b hb => h b (List.mem_cons_of_mem _ hb)]

theorem mapM_of_le {f g : α → Option β} {l : List α} {bs : List β}
    (h : ∀ a ∈ l, ∀ b, f a = some b → g a = some b) (hf : l.mapM f = some bs) :
    l.mapM g = some bs := by
  induction l generalizing bs with
  | nil => exact hf
  | cons a l ih =>
    rw [List.mapM_cons] at hf ⊢
    obtain ⟨b, hb, hf⟩ := Option.bind_eq_some_iff.1 hf
    obtain ⟨bs', hbs, hf⟩ := Option.bind_eq_some_iff.1 hf
    have hg := h a List.mem_cons_self b hb
    have hgs := ih (fun c hc => h c (List.mem_cons_of_mem _ hc)) hbs
    rw [hg, hgs]
    exact hf

theorem mapM_option_map (f : α → Option β) (g : β → γ) (l : List α) :
    l.mapM (fun a => (f a).map g) = (l.mapM f).map (List.map g) := by
  induction l with
  | nil => rfl
  | cons a l ih =>
    rw [List.mapM_cons, List.mapM_cons, ih]
    cases f a with
    | none => rfl
    | some b => cases l.mapM f <;> rfl

theorem mapM_of_forall₂ {f : α → Option β} {R : β → γ → Prop} {l : List α} {m : List γ}
    (h : List.Forall₂ (fun a c => ∃ b, f a = some b ∧ R b c) l m) :
    ∃ bs, l.mapM f = some bs ∧ List.Forall₂ R bs m := by
  induction h with
  | nil => exact ⟨[], rfl, .nil⟩
  | @cons a c l m hone _ ih =>
    obtain ⟨b, hb, hbc⟩ := hone
    obtain ⟨bs, hbs, hall⟩ := ih
    refine ⟨b :: bs, ?_, .cons hbc hall⟩
    rw [List.mapM_cons, hb, hbs]
    rfl

theorem mapM_eq_of_forall₂ {α β γ : Type} {f : α → Option γ} {g : β → Option γ} {l : List α}
    {m : List β} (h : List.Forall₂ (fun a b => f a = g b) l m) : l.mapM f = m.mapM g := by
  induction h with
  | nil => rfl
  | cons hone _ ih => rw [List.mapM_cons, List.mapM_cons, hone, ih]

theorem mapM_eq_some_iff {f : α → Option β} {l : List α} {bs : List β} :
    l.mapM f = some bs ↔ l.map f = bs.map some := by
  induction l generalizing bs with
  | nil => cases bs <;> simp
  | cons a l ih =>
    rw [List.mapM_cons]
    cases bs <;> simp [ih, Option.bind_eq_some_iff]

theorem mem_of_mapM {f : α → Option β} {l : List α} {bs : List β} {b : β}
    (h : l.mapM f = some bs) (hb : b ∈ bs) : ∃ a ∈ l, f a = some b := by
  have hm : some b ∈ l.map f := mapM_eq_some_iff.1 h ▸ List.mem_map_of_mem hb
  exact List.mem_map.1 hm

theorem exists_of_mapM {f : α → Option β} {l : List α} {bs : List β} {a : α}
    (h : l.mapM f = some bs) (ha : a ∈ l) : ∃ b ∈ bs, f a = some b := by
  have hm : f a ∈ bs.map some := mapM_eq_some_iff.1 h ▸ List.mem_map_of_mem ha
  obtain ⟨b, hb, he⟩ := List.mem_map.1 hm
  exact ⟨b, hb, he.symm⟩

theorem isSome_mapM_iff {f : α → Option β} {l : List α} :
    (l.mapM f).isSome ↔ ∀ a ∈ l, (f a).isSome := by
  induction l with
  | nil => simp
  | cons a l ih =>
    rw [List.forall_mem_cons, ← ih, List.mapM_cons]
    cases f a <;> cases l.mapM f <;> simp

end MapM

/-! ## Trees -/

namespace Store

variable {s s' : Store} {id id' : NodeId}

/-- The tree of a node if the trees of the nodes that it owns are known. -/
def treeOver? (s : Store) (below : NodeId → Option Tree) (id : NodeId) : Option Tree :=
  match s.node? id with
  | none => none
  | some (.scalar slot) => some (.scalar id slot)
  | some (.list items) => (items.mapM below).map (.list id)
  | some (.composite fields) =>
    (fields.mapM fun field => (below field.2).map (field.1, ·)).map (.composite id)
  | some (.validation target) => some (.validation id target)

theorem treeWithin?_succ (s : Store) (depth : Nat) :
    s.treeWithin? (depth + 1) = s.treeOver? (s.treeWithin? depth) := rfl

theorem treeOver?_of_le {below below' : NodeId → Option Tree} {t : Tree}
    (h : ∀ id t, below id = some t → below' id = some t) (ht : s.treeOver? below id = some t) :
    s.treeOver? below' id = some t := by
  unfold treeOver? at ht ⊢
  split at ht
  · simp at ht
  · exact ht
  · obtain ⟨ts, hts, rfl⟩ := Option.map_eq_some_iff.1 ht
    rw [mapM_of_le (fun a _ => h a) hts]
    rfl
  · next fields _ =>
    obtain ⟨ts, hts, rfl⟩ := Option.map_eq_some_iff.1 ht
    have hle : ∀ field ∈ fields, ∀ entry, (below field.2).map (field.1, ·) = some entry →
        (below' field.2).map (field.1, ·) = some entry := fun field _ entry hb => by
      obtain ⟨t', ht', rfl⟩ := Option.map_eq_some_iff.1 hb
      rw [h _ _ ht']
      rfl
    rw [mapM_of_le hle hts]
    rfl
  · exact ht

theorem treeWithin?_mono_succ (s : Store) (depth : Nat) {id : NodeId} {t : Tree}
    (h : s.treeWithin? depth id = some t) : s.treeWithin? (depth + 1) id = some t := by
  induction depth generalizing id t with
  | zero => simp [treeWithin?] at h
  | succ depth ih => exact treeOver?_of_le (fun _ _ hb => ih hb) h

/-- The identities that have a tree of at most `depth` levels. -/
def grown (s : Store) (depth : Nat) : Finset Nat :=
  (Finset.range s.size).filter fun i => (s.treeWithin? depth ⟨i⟩).isSome

theorem grown_subset_succ (s : Store) (depth : Nat) : s.grown depth ⊆ s.grown (depth + 1) := by
  intro i hi
  rw [grown, Finset.mem_filter] at hi ⊢
  obtain ⟨t, ht⟩ := Option.isSome_iff_exists.1 hi.2
  exact ⟨hi.1, by rw [treeWithin?_mono_succ s depth ht]; rfl⟩

theorem index_lt_of_treeWithin? {depth : Nat} {t : Tree}
    (h : s.treeWithin? depth id = some t) : id.index < s.size := by
  apply index_lt_size
  cases depth with
  | zero => simp [treeWithin?] at h
  | succ depth =>
    unfold Has
    cases e : s.node? id with
    | none => rw [treeWithin?_succ, treeOver?, e] at h; simp at h
    | some node => rfl

/-- A level that adds no identity adds no tree. -/
theorem treeWithin?_eq_succ {depth : Nat}
    (h : (s.grown depth).card = (s.grown (depth + 1)).card) :
    s.treeWithin? depth = s.treeWithin? (depth + 1) := by
  have hset := Finset.eq_of_subset_of_card_le (grown_subset_succ s depth) (Nat.le_of_eq h.symm)
  funext id
  cases e : s.treeWithin? (depth + 1) id with
  | some t =>
    have hm : id.index ∈ s.grown (depth + 1) :=
      Finset.mem_filter.2 ⟨Finset.mem_range.2 (index_lt_of_treeWithin? e), by rw [e]; rfl⟩
    rw [← hset, grown, Finset.mem_filter] at hm
    obtain ⟨t', ht'⟩ := Option.isSome_iff_exists.1 hm.2
    rw [ht', ← e, treeWithin?_mono_succ s depth ht']
  | none =>
    cases e' : s.treeWithin? depth id with
    | none => rfl
    | some t => rw [treeWithin?_mono_succ s depth e'] at e; simp at e

theorem treeWithin?_size (s : Store) :
    s.treeWithin? s.size = s.treeWithin? (s.size + 1) := by
  apply treeWithin?_eq_succ
  have hmono : Monotone fun depth => (s.grown depth).card :=
    monotone_nat_of_le_succ fun depth => Finset.card_le_card (grown_subset_succ s depth)
  have hbound : ∀ depth, (s.grown depth).card ≤ s.size := fun depth => by
    have hle := Finset.card_filter_le (Finset.range s.size) fun i =>
      (s.treeWithin? depth ⟨i⟩).isSome = true
    rwa [Finset.card_range] at hle
  have hstab : ∀ depth, (s.grown depth).card = (s.grown (depth + 1)).card →
      (s.grown (depth + 1)).card = (s.grown (depth + 2)).card := fun depth h => by
    have hnext : s.treeWithin? (depth + 1) = s.treeWithin? (depth + 2) := by
      rw [treeWithin?_succ s (depth + 1), ← treeWithin?_eq_succ h, ← treeWithin?_succ]
      exact treeWithin?_eq_succ h
    rw [grown, grown, hnext]
  exact (Nat.stabilises_of_monotone hmono hbound hstab (Nat.le_succ s.size)).symm

/-- More levels than there are identities give no more trees. -/
theorem treeWithin?_of_size_le (s : Store) {depth : Nat} (h : s.size ≤ depth) :
    s.treeWithin? depth = s.tree? := by
  induction depth, h using Nat.le_induction with
  | base => rfl
  | succ depth _ ih =>
    rw [treeWithin?_succ, ih, show s.tree? = s.treeWithin? s.size from rfl,
      ← treeWithin?_succ, ← treeWithin?_size]

theorem tree?_eq (s : Store) (id : NodeId) : s.tree? id = s.treeOver? s.tree? id := by
  have h := treeWithin?_of_size_le s (Nat.le_succ s.size)
  rw [treeWithin?_succ] at h
  exact (congrFun h id).symm

/-! ## Snapshots -/

theorem value?_scalar {slot : Slot} (h : s.node? id = some (.scalar slot)) :
    s.value? id = some slot.value := by
  rw [value?, tree?_eq, treeOver?, h]
  rfl

theorem value?_validation {target : NodeId} (h : s.node? id = some (.validation target)) :
    s.value? id = some .null := by
  rw [value?, tree?_eq, treeOver?, h]
  rfl

theorem values_eq_map (ts : List Tree) : Tree.values ts = ts.map Tree.value := by
  induction ts with
  | nil => rfl
  | cons t ts ih => rw [Tree.values, ih, List.map_cons]

/-- The snapshot of a list is made of the snapshots of its items. -/
theorem value?_list {items : List NodeId} (h : s.node? id = some (.list items)) :
    s.value? id = (items.mapM s.value?).map .array := by
  have hitems : items.mapM s.value? = (items.mapM s.tree?).map (List.map Tree.value) :=
    mapM_option_map s.tree? Tree.value items
  have htree : s.tree? id = (items.mapM s.tree?).map (.list id) := by
    rw [tree?_eq, treeOver?, h]
  rw [value?, htree, hitems]
  cases items.mapM s.tree? with
  | none => rfl
  | some ts => exact congrArg (fun vs => some (Value.array vs)) (values_eq_map ts)

theorem isValidation_of_tree? {t : Tree} (h : s.tree? id = some t) :
    t.isValidation = s.isValidation id := by
  rw [tree?_eq, treeOver?] at h
  unfold isValidation
  split at h
  · simp at h
  · next e => rw [← Option.some.inj h, e]; rfl
  · next e =>
    obtain ⟨ts, -, rfl⟩ := Option.map_eq_some_iff.1 h
    rw [e]
    rfl
  · next e =>
    obtain ⟨ts, -, rfl⟩ := Option.map_eq_some_iff.1 h
    rw [e]
    rfl
  · next e => rw [← Option.some.inj h, e]; rfl

theorem tree?_of_isValidation (h : s.isValidation id = true) :
    ∃ t, s.tree? id = some t ∧ t.isValidation = true := by
  unfold isValidation at h
  split at h
  · next target e => exact ⟨.validation id target, by rw [tree?_eq, treeOver?, e], rfl⟩
  · simp at h

/-- The fields of a composite that carry data. -/
def dataOf (s : Store) (fields : Fields NodeId) : Fields NodeId :=
  fields.filter fun field => !s.isValidation field.2

theorem dataOf_cons (s : Store) (field : String × NodeId) (rest : Fields NodeId) :
    s.dataOf (field :: rest) =
      if s.isValidation field.2 then s.dataOf rest else field :: s.dataOf rest := by
  unfold dataOf
  rw [List.filter_cons]
  cases s.isValidation field.2 <;> rfl

theorem fieldValues_eq (s : Store) (fields : Fields NodeId) :
    (fields.mapM fun field => (s.tree? field.2).map (field.1, ·)).map Tree.fieldValues =
      (s.dataOf fields).mapM fun field => (s.value? field.2).map (field.1, ·) := by
  induction fields with
  | nil => rfl
  | cons field rest ih =>
    rw [List.mapM_cons, dataOf_cons]
    cases hv : s.isValidation field.2 with
    | true =>
      obtain ⟨t, ht, htv⟩ := tree?_of_isValidation hv
      rw [if_pos rfl, ← ih, ht]
      cases rest.mapM fun field => (s.tree? field.2).map (field.1, ·) with
      | none => rfl
      | some ts => simp [Tree.fieldValues, htv]
    | false =>
      rw [if_neg Bool.false_ne_true, List.mapM_cons, ← ih, value?]
      cases ht : s.tree? field.2 with
      | none => rfl
      | some t =>
        have htv : t.isValidation = false := (isValidation_of_tree? ht).trans hv
        cases rest.mapM fun field => (s.tree? field.2).map (field.1, ·) with
        | none => rfl
        | some ts => simp [Tree.fieldValues, htv]

/-- The snapshot of a composite is made of the snapshots of its fields but for the validations. -/
theorem value?_composite {fields : Fields NodeId} (h : s.node? id = some (.composite fields)) :
    s.value? id =
      ((s.dataOf fields).mapM fun field => (s.value? field.2).map (field.1, ·)).map .object := by
  have htree : s.tree? id =
      (fields.mapM fun field => (s.tree? field.2).map (field.1, ·)).map (.composite id) := by
    rw [tree?_eq, treeOver?, h]
  rw [value?, htree, ← fieldValues_eq]
  cases fields.mapM fun field => (s.tree? field.2).map (field.1, ·) <;> rfl

/-! ## Snapshots up to classes -/

/-- The snapshot in which every instance is the object of its fields. -/
def plainValue? (s : Store) (id : NodeId) : Option Value := (s.value? id).map Value.plain

theorem plainValue?_list {items : List NodeId} (h : s.node? id = some (.list items)) :
    s.plainValue? id = (items.mapM s.plainValue?).map .array := by
  have hitems : items.mapM s.plainValue? = (items.mapM s.value?).map (List.map Value.plain) :=
    mapM_option_map s.value? Value.plain items
  rw [plainValue?, value?_list h, hitems]
  cases items.mapM s.value? with
  | none => rfl
  | some vs => exact congrArg (fun vs => some (Value.array vs)) (Value.plainItems_eq_map vs)

theorem plainValue?_composite {fields : Fields NodeId}
    (h : s.node? id = some (.composite fields)) :
    s.plainValue? id =
      ((s.dataOf fields).mapM fun field => (s.plainValue? field.2).map (field.1, ·)).map
        .object := by
  have hfields : (fun field : String × NodeId => (s.plainValue? field.2).map (field.1, ·)) =
      fun field => ((s.value? field.2).map (field.1, ·)).map fun v => (v.1, v.2.plain) := by
    funext field
    rw [plainValue?, Option.map_map, Option.map_map]
    rfl
  rw [plainValue?, value?_composite h, hfields,
    mapM_option_map (fun field : String × NodeId => (s.value? field.2).map (field.1, ·))]
  cases (s.dataOf fields).mapM fun field => (s.value? field.2).map (field.1, ·) with
  | none => rfl
  | some vs => exact congrArg (fun vs => some (Value.object vs)) (Value.plainFields_eq_map vs)

/-- Fields of one name in two stores that carry the same data, or none in both. -/
def SameField (s s' : Store) (field field' : String × NodeId) : Prop :=
  field.1 = field'.1 ∧ s.isValidation field.2 = s'.isValidation field'.2 ∧
    s.plainValue? field.2 = s'.plainValue? field'.2

theorem forall₂_dataOf {fields fields' : Fields NodeId}
    (h : List.Forall₂ (SameField s s') fields fields') :
    List.Forall₂ (SameField s s') (s.dataOf fields) (s'.dataOf fields') := by
  induction h with
  | nil => exact .nil
  | @cons field field' rest rest' hone _ ih =>
    rw [dataOf_cons, dataOf_cons, ← hone.2.1]
    split
    · exact ih
    · exact .cons hone ih

theorem plainValue?_eq_of_items {items items' : List NodeId}
    (hn : s.node? id = some (.list items)) (hn' : s'.node? id' = some (.list items'))
    (h : List.Forall₂ (fun item item' => s.plainValue? item = s'.plainValue? item') items items') :
    s.plainValue? id = s'.plainValue? id' := by
  rw [plainValue?_list hn, plainValue?_list hn', mapM_eq_of_forall₂ h]

theorem plainValue?_eq_of_fields {fields fields' : Fields NodeId}
    (hn : s.node? id = some (.composite fields)) (hn' : s'.node? id' = some (.composite fields'))
    (h : List.Forall₂ (SameField s s') fields fields') :
    s.plainValue? id = s'.plainValue? id' := by
  have hdata : List.Forall₂ (fun (field field' : String × NodeId) =>
      (s.plainValue? field.2).map (field.1, ·) = (s'.plainValue? field'.2).map (field'.1, ·))
      (s.dataOf fields) (s'.dataOf fields') :=
    (forall₂_dataOf h).imp fun field field' hone => by rw [hone.1, hone.2.2]
  rw [plainValue?_composite hn, plainValue?_composite hn', mapM_eq_of_forall₂ hdata]

/-! ## Trees in another store -/

/-- A tree depends on no more than the nodes in it. -/
theorem treeWithin?_congr {kept : NodeId → Prop}
    (hsame : ∀ id, kept id → s'.node? id = s.node? id)
    (hchild : ∀ id node, kept id → s.node? id = some node → ∀ child ∈ node.children, kept child)
    (depth : Nat) {id : NodeId} (hid : kept id) :
    s'.treeWithin? depth id = s.treeWithin? depth id := by
  induction depth generalizing id with
  | zero => rfl
  | succ depth ih =>
    rw [treeWithin?_succ, treeWithin?_succ, treeOver?, treeOver?, hsame id hid]
    split
    · rfl
    · rfl
    · next items e =>
      have hc : ∀ child ∈ items, s'.treeWithin? depth child = s.treeWithin? depth child :=
        fun child hm => ih (hchild id _ hid e child hm)
      rw [mapM_congr hc]
    · next fields e =>
      have hc : ∀ field ∈ fields, (s'.treeWithin? depth field.2).map (field.1, ·) =
          (s.treeWithin? depth field.2).map (field.1, ·) := fun field hm => by
        rw [ih (hchild id _ hid e field.2 (List.mem_map_of_mem hm))]
      rw [mapM_congr hc]
    · rfl

theorem tree?_congr {kept : NodeId → Prop} (hsame : ∀ id, kept id → s'.node? id = s.node? id)
    (hchild : ∀ id node, kept id → s.node? id = some node → ∀ child ∈ node.children, kept child)
    (hid : kept id) : s'.tree? id = s.tree? id := by
  have hw := treeWithin?_congr hsame hchild (max s.size s'.size) hid
  rwa [treeWithin?_of_size_le s (Nat.le_max_left ..),
    treeWithin?_of_size_le s' (Nat.le_max_right ..)] at hw

theorem Extends.tree? (h : s.Extends s') (hs : s.Closed) (hid : s.Has id) :
    s'.tree? id = s.tree? id :=
  tree?_congr (fun _ hhas => h.node? hhas) (fun id node _ hn => hs id node hn) hid

theorem Extends.value? (h : s.Extends s') (hs : s.Closed) (hid : s.Has id) :
    s'.value? id = s.value? id := by
  unfold Store.value?
  rw [h.tree? hs hid]

end Store

end StateTree
