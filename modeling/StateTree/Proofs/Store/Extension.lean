import StateTree.Proofs.Fields
import StateTree.Store.Lookup

/-
  What building keeps. A store extends another if every identity that the other has used still
  stands for the same node, and a store is closed if every node that is owned is there. Building
  nodes out of nodes that are there extends a closed store to a closed store, and whatever a path
  led to before it still leads to (`Extends.walk_ok`). `record_spec` says all that `record` does:
  the fields of the new composite are the given ones and one new validation for each check.
-/

namespace StateTree.Store

variable {s s' s'' : Store} {id : NodeId} {node : Node}

/-- The node is there: it has been built and is not gone. -/
def Has (s : Store) (id : NodeId) : Prop := (s.node? id).isSome

/-- Every node that is owned is there. -/
def Closed (s : Store) : Prop :=
  ∀ id node, s.node? id = some node → ∀ child ∈ node.children, s.Has child

/-- Whatever stands at an identity that has been used stands there in the second store too. -/
structure Extends (s s' : Store) : Prop where
  size_le : s.size ≤ s'.size
  same : ∀ id, id.index < s.size → s'.node? id = s.node? id

theorem has_of_node? (h : s.node? id = some node) : s.Has id := by
  unfold Has
  rw [h]
  rfl

theorem node?_of_slot? {slot : Slot} (h : s.slot? id = some slot) :
    s.node? id = some (.scalar slot) := by
  unfold slot? at h
  split at h
  · next hn => rw [hn, Option.some.inj h]
  · simp at h

theorem node?_of_items? {items : List NodeId} (h : s.items? id = some items) :
    s.node? id = some (.list items) := by
  unfold items? at h
  split at h
  · next hn => rw [hn, Option.some.inj h]
  · simp at h

theorem node?_of_fields? {fields : Fields NodeId} (h : s.fields? id = some fields) :
    s.node? id = some (.composite fields) := by
  unfold fields? at h
  split at h
  · next hn => rw [hn, Option.some.inj h]
  · simp at h

theorem index_lt_size (h : s.Has id) : id.index < s.size := by
  unfold Has node? at h
  exact Nat.lt_of_not_le fun k => by simp [Array.getElem?_eq_none k] at h

theorem ne_next (h : s.Has id) : id ≠ s.next := by
  intro e
  have hlt := index_lt_size h
  rw [e] at hlt
  exact Nat.lt_irrefl _ hlt

theorem size_push (s : Store) (node : Node) : (s.push node).size = s.size + 1 :=
  Array.size_push _

theorem size_put (s : Store) (id : NodeId) (node : Node) : (s.put id node).size = s.size :=
  Array.size_setIfInBounds

theorem node?_alloc (s : Store) (node : Node) (id : NodeId) :
    (s.alloc node).2.node? id = if id = s.next then some node else s.node? id :=
  node?_push s node id

/-! ## Extensions -/

theorem Extends.refl (s : Store) : s.Extends s := ⟨Nat.le_refl _, fun _ _ => rfl⟩

theorem Extends.trans (h : s.Extends s') (h' : s'.Extends s'') : s.Extends s'' :=
  ⟨Nat.le_trans h.size_le h'.size_le, fun id hid => by
    rw [h'.same id (Nat.lt_of_lt_of_le hid h.size_le), h.same id hid]⟩

theorem Extends.node? (h : s.Extends s') (hid : s.Has id) : s'.node? id = s.node? id :=
  h.same id (index_lt_size hid)

theorem Extends.node?_eq (h : s.Extends s') (hn : s.node? id = some node) :
    s'.node? id = some node := by
  rw [h.node? (has_of_node? hn), hn]

theorem Extends.has (h : s.Extends s') (hid : s.Has id) : s'.Has id := by
  unfold Has
  rw [h.node? hid]
  exact hid

theorem extends_alloc (s : Store) (node : Node) : s.Extends (s.alloc node).2 := by
  refine ⟨?_, fun id hid => ?_⟩
  · show s.size ≤ (s.push node).size
    rw [size_push]
    omega
  · have hne : id ≠ s.next := fun e => by
      rw [e] at hid
      exact Nat.lt_irrefl _ hid
    rw [node?_alloc, if_neg hne]

/-! ## Closed stores -/

theorem closed_empty : Closed ∅ := fun id node hn => by
  have hnone : node? ∅ id = none := by simp [node?, EmptyCollection.emptyCollection, empty]
  rw [hnone] at hn
  simp at hn

theorem Closed.alloc (h : s.Closed) (hc : ∀ child ∈ node.children, s.Has child) :
    (s.alloc node).2.Closed := by
  intro id other hn child hm
  apply (extends_alloc s node).has
  rw [node?_alloc] at hn
  split at hn
  · rw [← Option.some.inj hn] at hm
    exact hc child hm
  · exact h id other hn child hm

theorem mem_children_insert {fields : Fields NodeId} {name : String} {new child : NodeId}
    (h : child ∈ (Node.composite (fields.insert name new)).children) :
    child = new ∨ child ∈ (Node.composite fields).children := by
  simp only [Node.children, List.mem_map] at h ⊢
  obtain ⟨entry, hm, rfl⟩ := h
  induction fields with
  | nil =>
    rw [Fields.insert, List.mem_singleton] at hm
    exact Or.inl (by rw [hm])
  | cons first rest ih =>
    obtain ⟨other, old⟩ := first
    rw [Fields.insert] at hm
    split at hm
    · rcases List.mem_cons.1 hm with rfl | hm
      · exact Or.inl rfl
      · exact Or.inr ⟨entry, List.mem_cons_of_mem _ hm, rfl⟩
    · rcases List.mem_cons.1 hm with rfl | hm
      · exact Or.inr ⟨_, List.mem_cons_self, rfl⟩
      · rcases ih hm with e | ⟨e, hm, h⟩
        · exact Or.inl e
        · exact Or.inr ⟨e, List.mem_cons_of_mem _ hm, h⟩

theorem has_put_iff {target other : NodeId} (ht : s.Has target) :
    (s.put target node).Has other ↔ s.Has other := by
  unfold Has
  rw [node?_put]
  split
  · next h =>
    rw [h.1]
    exact iff_of_true rfl ht
  · rfl

theorem Closed.insertField (h : s.Closed) {name : String} {new : NodeId} (hn : s.Has new) :
    (s.insertField id name new).Closed := by
  unfold Store.insertField
  split
  · next fields hid =>
    intro other node ho child hm
    have hhas := has_of_node? hid
    rw [has_put_iff hhas]
    rw [node?_put] at ho
    split at ho
    · rw [← Option.some.inj ho] at hm
      rcases mem_children_insert hm with rfl | hm
      · exact hn
      · exact h id _ hid child hm
    · exact h other node ho child hm
  · exact h

theorem Closed.addValidation (h : s.Closed) (name : String) (target : Option NodeId) :
    (s.addValidation id name target).Closed := by
  have hv : (s.validation (target.getD id)).2.Closed := h.alloc fun child hm => by
    simp [Node.children] at hm
  exact hv.insertField (has_of_node? (by rw [validation, node?_alloc]; exact if_pos rfl))

theorem Closed.foldl_addValidation (checks : List (String × Option NodeId)) (h : s.Closed) :
    (checks.foldl (fun s v => s.addValidation id v.1 v.2) s).Closed := by
  induction checks generalizing s with
  | nil => exact h
  | cons check rest ih => exact ih (h.addValidation check.1 check.2)

theorem Closed.record {data : Fields NodeId} (h : s.Closed) (hd : ∀ field ∈ data, s.Has field.2)
    (checks : List (String × Option NodeId)) : (s.record data checks).2.Closed := by
  apply Closed.foldl_addValidation
  refine h.alloc fun child hm => ?_
  obtain ⟨field, hf, rfl⟩ := List.mem_map.1 hm
  exact hd field hf

/-! ## Lookup -/

theorem child?_of_node? {segment : String} (h : s'.node? id = s.node? id) :
    s'.child? id segment = s.child? id segment := by
  unfold child?
  rw [h]

theorem has_of_child? {segment : String} {child : NodeId} (h : s.child? id segment = some child) :
    s.Has id := by
  unfold child? at h
  unfold Has
  cases e : s.node? id with
  | none => rw [e] at h; simp at h
  | some node => rfl

theorem Extends.child? (h : s.Extends s') (hid : s.Has id) (segment : String) :
    s'.child? id segment = s.child? id segment :=
  child?_of_node? (h.node? hid)

/-- What one segment leads to is owned. -/
theorem mem_children_of_child? {segment : String} {child : NodeId}
    (h : s.child? id segment = some child) :
    ∃ node, s.node? id = some node ∧ child ∈ node.children := by
  unfold Store.child? at h
  split at h
  · next fields hn => exact ⟨_, hn, List.mem_map.2 ⟨_, Fields.mem_of_get? h, rfl⟩⟩
  · next items hn =>
    obtain ⟨i, -, hi⟩ := Option.bind_eq_some_iff.1 h
    exact ⟨_, hn, List.mem_of_getElem? hi⟩
  · simp at h

theorem Closed.child? {segment : String} {child : NodeId} (h : s.Closed)
    (hc : s.child? id segment = some child) : s.Has child := by
  obtain ⟨node, hn, hm⟩ := mem_children_of_child? hc
  exact h id node hn child hm

/-- A path that leads to a node leads there in every extension. -/
theorem Extends.walk_ok (h : s.Extends s') {path : Path} {segments : List String}
    {target : NodeId} (hw : s.walk path id segments = .ok target) :
    s'.walk path id segments = .ok target := by
  induction segments generalizing id with
  | nil => exact hw
  | cons segment rest ih =>
    rw [walk] at hw ⊢
    cases e : s.child? id segment with
    | none => rw [e] at hw; simp at hw
    | some child =>
      rw [e] at hw
      rw [h.child? (has_of_child? e), e]
      exact ih hw

theorem Closed.walk {path : Path} {segments : List String} {target : NodeId} (h : s.Closed)
    (hid : s.Has id) (hw : s.walk path id segments = .ok target) : s.Has target := by
  induction segments generalizing id with
  | nil => exact Except.ok.inj hw ▸ hid
  | cons segment rest ih =>
    rw [Store.walk] at hw
    cases e : s.child? id segment with
    | none => rw [e] at hw; simp at hw
    | some child =>
      rw [e] at hw
      exact ih (h.child? e) hw

/-! ## Records -/

theorem node?_addValidation {fields : Fields NodeId} (h : s.node? id = some (.composite fields))
    (name : String) (target : Option NodeId) (other : NodeId) :
    (s.addValidation id name target).node? other =
      if other = id then some (.composite (fields.insert name s.next))
      else if other = s.next then some (.validation (target.getD id))
      else s.node? other := by
  have hne := ne_next (has_of_node? h)
  have hlt : id.index < (s.push (.validation (target.getD id))).size := by
    rw [size_push]
    exact Nat.lt_succ_of_lt (index_lt_size (has_of_node? h))
  simp only [addValidation, validation, alloc, insertField, node?_push, if_neg hne, h, node?_put]
  by_cases e : other = id
  · rw [if_pos ⟨e, hlt⟩, if_pos e]
  · rw [if_neg fun k => e k.1, if_neg e]

theorem size_addValidation {fields : Fields NodeId} (h : s.node? id = some (.composite fields))
    (name : String) (target : Option NodeId) :
    (s.addValidation id name target).size = s.size + 1 := by
  have hne := ne_next (has_of_node? h)
  simp only [addValidation, validation, alloc, insertField, node?_push, if_neg hne, h, size_put,
    size_push]

/-- Validations with new names come after the fields that are there, each with its target and with
an identity of its own. -/
theorem foldl_addValidation_spec (checks : List (String × Option NodeId)) {fields : Fields NodeId}
    (h : s.node? id = some (.composite fields)) (hd : (checks.map (·.1)).Nodup)
    (hnew : ∀ check ∈ checks, check.1 ∉ fields.names) :
    ∃ added : Fields NodeId, added.names = checks.map (·.1) ∧
      added.map (·.2.index) = List.range' s.size checks.length ∧
      (checks.foldl (fun s v => s.addValidation id v.1 v.2) s).node? id =
        some (.composite (fields ++ added)) ∧
      (∀ p ∈ checks.zip added,
        (checks.foldl (fun s v => s.addValidation id v.1 v.2) s).node? p.2.2 =
          some (.validation (p.1.2.getD id))) ∧
      s.size ≤ (checks.foldl (fun s v => s.addValidation id v.1 v.2) s).size ∧
      ∀ other, other.index < s.size → other ≠ id →
        (checks.foldl (fun s v => s.addValidation id v.1 v.2) s).node? other = s.node? other := by
  induction checks generalizing s fields with
  | nil => exact ⟨[], rfl, rfl, by simpa using h, by simp, Nat.le_refl _, fun _ _ _ => rfl⟩
  | cons check rest ih =>
    obtain ⟨name, target⟩ := check
    rw [List.map_cons, List.nodup_cons] at hd
    have hne := ne_next (has_of_node? h)
    have hnode := node?_addValidation h name target
    have hsize := size_addValidation h name target
    have hid : (s.addValidation id name target).node? id =
        some (.composite (fields ++ [(name, s.next)])) := by
      rw [hnode, if_pos rfl, Fields.insert_new (hnew _ List.mem_cons_self)]
    have hrest : ∀ check ∈ rest, check.1 ∉ Fields.names (fields ++ [(name, s.next)]) := by
      intro check hm
      rw [Fields.names_append, List.mem_append, not_or]
      refine ⟨hnew check (List.mem_cons_of_mem _ hm), fun hs => ?_⟩
      exact hd.1 (List.mem_map.2 ⟨check, hm, List.mem_singleton.1 hs⟩)
    obtain ⟨added, hnames, hids, hcomp, hval, hle, hsame⟩ := ih hid hd.2 hrest
    rw [List.foldl_cons]
    refine ⟨(name, s.next) :: added, ?_, ?_, ?_, ?_, Nat.le_trans (by omega) hle, ?_⟩
    · rw [Fields.names_cons, hnames, List.map_cons]
    · rw [List.map_cons, hids, hsize, List.length_cons, List.range'_succ]
      rfl
    · rw [hcomp, List.append_assoc, List.singleton_append]
    · intro p hp
      rw [List.zip_cons_cons, List.mem_cons] at hp
      rcases hp with rfl | hp
      · have hlt : s.next.index < (s.addValidation id name target).size := by
          rw [hsize]
          exact Nat.lt_succ_self _
        rw [hsame _ hlt (Ne.symm hne), hnode, if_neg (Ne.symm hne), if_pos rfl]
      · exact hval p hp
    · intro other ho hoid
      have hon : other ≠ s.next := fun e => by
        rw [e] at ho
        exact Nat.lt_irrefl _ ho
      rw [hsame other (by omega) hoid, hnode, if_neg hoid, if_neg hon]

/-- A record is a new composite: the given fields, then one new validation for each check, which
refers to its target, or to the composite itself if it has none. The identities of the validations
follow that of the composite. -/
theorem record_spec (s : Store) (data : Fields NodeId) (checks : List (String × Option NodeId))
    (hd : (checks.map (·.1)).Nodup) (hnew : ∀ check ∈ checks, check.1 ∉ data.names) :
    s.Extends (s.record data checks).2 ∧
      ∃ added : Fields NodeId, added.names = checks.map (·.1) ∧
        added.map (·.2.index) = List.range' (s.size + 1) checks.length ∧
        (s.record data checks).2.node? s.next = some (.composite (data ++ added)) ∧
        ∀ p ∈ checks.zip added,
          (s.record data checks).2.node? p.2.2 = some (.validation (p.1.2.getD s.next)) := by
  have h : (s.composite data).2.node? s.next = some (.composite data) := by
    rw [composite, node?_alloc, if_pos rfl]
  obtain ⟨added, hnames, hids, hcomp, hval, hle, hsame⟩ :=
    foldl_addValidation_spec checks h hd hnew
  have hext := extends_alloc s (.composite data)
  have hsize : (s.composite data).2.size = s.size + 1 := size_push s _
  rw [hsize] at hids
  refine ⟨⟨Nat.le_trans hext.size_le hle, fun other ho => ?_⟩, added, hnames, hids, hcomp, hval⟩
  have hne : other ≠ s.next := fun e => by
    rw [e] at ho
    exact Nat.lt_irrefl _ ho
  exact (hsame other (Nat.lt_of_lt_of_le ho hext.size_le) hne).trans (hext.same other ho)

/-- What a path led to among the data fields is what it leads to from the finished composite. -/
theorem find_of_resolve {data added : Fields NodeId} {path : Path} {target : Option NodeId}
    (h : s.Extends s') (hn : s'.node? id = some (.composite (data ++ added)))
    (hr : s.resolve data path = .ok target) : s'.find id path = .ok (target.getD id) := by
  unfold resolve at hr
  unfold find
  cases hp : Path.segments path with
  | nil =>
    rw [hp] at hr
    rw [← Except.ok.inj hr]
    rfl
  | cons segment rest =>
    rw [hp] at hr
    cases hd : data.get? segment with
    | none => simp [hd] at hr
    | some child =>
      have hc : s'.child? id segment = some child := by
        unfold child?
        rw [hn]
        show Fields.get? (data ++ added) segment = some child
        rw [Fields.get?_append, hd]
        rfl
      simp only [hd] at hr
      simp only [walk, hc]
      cases hw : s.walk path child rest with
      | error e => simp [hw, Except.map] at hr
      | ok found =>
        rw [hw] at hr
        rw [← Except.ok.inj hr]
        exact h.walk_ok hw

end StateTree.Store
