import Mathlib.Data.List.Pairwise
import StateTree.Proofs.Store.Indexing
import StateTree.Proofs.Store.Locality

/-
  Setting one scalar. Where the nodes below the root form a tree, so that none of them is owned
  twice (`OwnsTree`), a scalar has one place in the snapshot of the root, and setting it puts the
  value there and leaves all else as it is (`setAt_assign`). Where a scalar is shared, this does not
  hold: setting it shows in several places at once.
-/

namespace StateTree

/-! ## One result among many -/

section MapM

variable {α β : Type} {f f' : α → Option β} {g : β → β} {a : α}

theorem mapM_modify {items : List α} {results : List β} {i : Nat} (hd : items.Nodup)
    (h : items.mapM f = some results) (hi : items[i]? = some a) (ha : f' a = (f a).map g)
    (hrest : ∀ b ∈ items, b ≠ a → f' b = f b) : items.mapM f' = some (results.modify i g) := by
  induction items generalizing results i with
  | nil => simp at hi
  | cons b rest ih =>
    rw [List.nodup_cons] at hd
    rw [List.mapM_cons] at h ⊢
    obtain ⟨first, hfirst, h⟩ := Option.bind_eq_some_iff.1 h
    obtain ⟨others, hothers, h⟩ := Option.bind_eq_some_iff.1 h
    cases Option.some.inj h
    cases i with
    | zero =>
      cases Option.some.inj hi
      have hsame : rest.mapM f' = rest.mapM f := mapM_congr fun c hc =>
        hrest c (List.mem_cons_of_mem _ hc) fun e => hd.1 (e ▸ hc)
      rw [ha, hfirst, hsame, hothers]
      rfl
    | succ i =>
      have hi' : rest[i]? = some a := hi
      have hb : b ≠ a := fun e => hd.1 (e ▸ List.mem_of_getElem? hi')
      rw [hrest b List.mem_cons_self hb, hfirst,
        ih hd.2 hothers hi' fun c hc => hrest c (List.mem_cons_of_mem _ hc)]
      rfl

theorem mapM_modify_field {fields : Fields α} {results : Fields β} {name : String}
    (hd : (fields.map (·.2)).Nodup)
    (h : (fields.mapM fun field => (f field.2).map (field.1, ·)) = some results)
    (hget : fields.get? name = some a) (ha : f' a = (f a).map g)
    (hrest : ∀ field ∈ fields, field.2 ≠ a → f' field.2 = f field.2) :
    (fields.mapM fun field => (f' field.2).map (field.1, ·)) =
      some (Fields.modify results name g) := by
  induction fields generalizing results with
  | nil => simp at hget
  | cons field rest ih =>
    obtain ⟨first, b⟩ := field
    rw [List.map_cons, List.nodup_cons] at hd
    rw [List.mapM_cons] at h ⊢
    obtain ⟨entry, hentry, h⟩ := Option.bind_eq_some_iff.1 h
    obtain ⟨entries, hentries, h⟩ := Option.bind_eq_some_iff.1 h
    cases Option.some.inj h
    obtain ⟨value, hvalue, rfl⟩ := Option.map_eq_some_iff.1 hentry
    rw [Fields.get?_cons] at hget
    rw [Fields.modify_cons]
    by_cases e : name = first
    · rw [if_pos e] at hget ⊢
      cases Option.some.inj hget
      have hsame : (rest.mapM fun field => (f' field.2).map (field.1, ·)) =
          rest.mapM fun field => (f field.2).map (field.1, ·) := mapM_congr fun c hc => by
        have hne : c.2 ≠ a := by
          rintro rfl
          exact hd.1 (List.mem_map.2 ⟨c, hc, rfl⟩)
        rw [hrest c (List.mem_cons_of_mem _ hc) hne]
      rw [ha, hvalue, hsame, hentries]
      rfl
    · rw [if_neg e] at hget ⊢
      have hb : b ≠ a := by
        rintro rfl
        exact hd.1 (List.mem_map.2 ⟨_, Fields.mem_of_get? hget, rfl⟩)
      rw [hrest _ List.mem_cons_self hb, hvalue,
        ih hd.2 hentries hget fun c hc => hrest c (List.mem_cons_of_mem _ hc)]
      rfl

end MapM

namespace Store

variable {s s' : Store} {root id target : NodeId} {slot : Slot} {path : Path}

/-! ## Nodes that own a tree -/

/-- The nodes below the root form a tree: no node is below two children of one node, and no chain
of ownership goes on for ever. -/
structure OwnsTree (s : Store) (root : NodeId) : Prop where
  apart : ∀ id node, s.Reaches root id → s.node? id = some node → node.children.Pairwise s.Apart
  acc : Acc (fun child parent => s.Owns parent child) root

theorem OwnsTree.of_owns {child : NodeId} (h : s.OwnsTree root) (ho : s.Owns root child) :
    s.OwnsTree child :=
  ⟨fun id node hr hn => h.apart id node (hr.head ho) hn, h.acc.inv ho⟩

theorem OwnsTree.of_children {node : Node} (hn : s.node? id = some node)
    (ha : node.children.Pairwise s.Apart) (hc : ∀ child ∈ node.children, s.OwnsTree child) :
    s.OwnsTree id where
  apart := fun other node' hr hn' => by
    rcases hr.cases_head with rfl | ⟨child, ⟨node'', hn'', hm⟩, hr⟩
    · cases Option.some.inj (hn.symm.trans hn')
      exact ha
    · cases Option.some.inj (hn.symm.trans hn'')
      exact (hc child hm).apart other node' hr hn'
  acc := .intro _ fun child ⟨node', hn', hm⟩ => by
    cases Option.some.inj (hn.symm.trans hn')
    exact (hc child hm).acc

theorem OwnsTree.nodup {node : Node} (h : s.OwnsTree id) (hn : s.node? id = some node) :
    node.children.Nodup := by
  refine (h.apart id node .refl hn).imp fun {a b} ha => ?_
  rintro rfl
  exact ha a .refl .refl

/-- What one child reaches, no other child reaches. -/
theorem OwnsTree.not_reaches {node : Node} {child other : NodeId} (h : s.OwnsTree id)
    (hn : s.node? id = some node) (hc : child ∈ node.children) (hr : s.Reaches child target)
    (ho : other ∈ node.children) (hne : other ≠ child) : ¬ s.Reaches other target := by
  have : Std.Symm s.Apart := ⟨fun _ _ => Apart.symm⟩
  exact (h.apart id node .refl hn).forall hc ho hne.symm target hr

theorem Apart.intact {a b : NodeId} (h : s.Apart a b) (ha : Intact a s s')
    (hb : Intact b s s') : s'.Apart a b :=
  fun id hra hrb => h id (ha.reaches_iff.1 hra) (hb.reaches_iff.1 hrb)

theorem OwnsTree.intact (ht : s.OwnsTree root) (h : Intact root s s') : s'.OwnsTree root where
  apart := fun id node' hr hn' => by
    have hr' := h.reaches_iff.1 hr
    have ho := h id hr'
    rw [outline?, outline?, hn'] at ho
    obtain ⟨node, hn, he⟩ := Option.map_eq_some_iff.1 ho.symm
    have hchildren : node'.children = node.children := by
      rw [← Node.children_outline node', ← he, Node.children_outline]
    rw [hchildren]
    exact (ht.apart id node hr' hn).imp_of_mem fun ha hb hapart =>
      hapart.intact (h.of_reaches (hr'.tail ⟨node, hn, ha⟩))
        (h.of_reaches (hr'.tail ⟨node, hn, hb⟩))
  acc := by
    have hacc := ht.acc
    clear ht
    induction hacc with
    | intro root _ ih =>
      exact .intro _ fun child ho =>
        ih child (h.owns_iff.1 ho) (h.of_reaches (.single (h.owns_iff.1 ho)))

/-! ## One scalar -/

theorem assign_eq_put (h : s.slot? target = some slot) (value : Value) :
    s.assign target value = s.put target (.scalar (slot.set value)) := by
  rw [assign, mapSlot, node?_of_slot? h]

theorem node?_assign_self (h : s.slot? target = some slot) (value : Value) :
    (s.assign target value).node? target = some (.scalar (slot.set value)) := by
  rw [assign, node?_mapSlot, if_pos rfl, node?_of_slot? h]
  rfl

theorem node?_assign_of_ne (h : id ≠ target) (value : Value) :
    (s.assign target value).node? id = s.node? id := by
  rw [assign, node?_mapSlot, if_neg h]

theorem kept_assign (h : ¬ s.Reaches root target) (value : Value) :
    Kept root s (s.assign target value) := fun id hr => by
  refine node?_assign_of_ne ?_ value
  rintro rfl
  exact h hr

theorem isValidation_assign (s : Store) (target : NodeId) (value : Value) (id : NodeId) :
    (s.assign target value).isValidation id = s.isValidation id := by
  rw [isValidation, isValidation, assign, node?_mapSlot]
  by_cases e : id = target
  · subst e
    rw [if_pos rfl]
    cases s.node? id with
    | none => rfl
    | some node => cases node <;> rfl
  · rw [if_neg e]

theorem dataOf_assign (s : Store) (target : NodeId) (value : Value) (fields : Fields NodeId) :
    (s.assign target value).dataOf fields = s.dataOf fields := by
  unfold dataOf
  simp only [isValidation_assign]

theorem walk_assign (s : Store) (target : NodeId) (value : Value) (path : Path) (root : NodeId)
    (segments : List String) :
    (s.assign target value).walk path root segments = s.walk path root segments := by
  induction segments generalizing root with
  | nil => rfl
  | cons segment rest ih =>
    have hi : Intact root s (s.assign target value) := fun id _ => outline?_assign s target value id
    rw [walk, walk, hi.child? .refl]
    cases s.child? root segment with
    | none => rfl
    | some child => exact ih child

theorem find_assign (s : Store) (target : NodeId) (value : Value) (root : NodeId) (path : Path) :
    (s.assign target value).find root path = s.find root path :=
  walk_assign s target value path root (Path.segments path)

theorem slot?_assign_self (h : s.slot? target = some slot) (value : Value) :
    (s.assign target value).slot? target = some (slot.set value) := by
  rw [slot?, node?_assign_self h]

theorem slot?_assign_of_ne (h : id ≠ target) (value : Value) :
    (s.assign target value).slot? id = s.slot? id := by
  rw [slot?, slot?, node?_assign_of_ne h]

theorem size_assign (s : Store) (target : NodeId) (value : Value) :
    (s.assign target value).size = s.size := by
  unfold assign mapSlot
  split
  · exact size_put s target _
  · rfl

/-! ## The snapshot of the root -/

/-- Nothing is below a validation, so what reaches a scalar is none. -/
theorem isValidation_of_reaches (hr : s.Reaches id target) (h : s.slot? target = some slot) :
    s.isValidation id = false := by
  unfold isValidation
  split
  · next hn =>
    cases eq_of_reaches_leaf hn rfl hr
    simp [node?_of_slot? h] at hn
  · rfl

/-- What owns a node is no scalar, so setting a scalar leaves it as it is. -/
theorem node?_assign_of_owns {child : NodeId} (ho : s.Owns id child)
    (h : s.slot? target = some slot) (value : Value) :
    (s.assign target value).node? id = s.node? id := by
  refine node?_assign_of_ne ?_ value
  rintro rfl
  obtain ⟨node, hn, hm⟩ := ho
  rw [node?_of_slot? h, Option.some.injEq] at hn
  simp [← hn, Node.children] at hm

/-- The other children of a node have no part in what is below this one. -/
theorem value?_assign_sibling {node : Node} {child other : NodeId} (ht : s.OwnsTree id)
    (hn : s.node? id = some node) (hc : child ∈ node.children) (hr : s.Reaches child target)
    (ho : other ∈ node.children) (hne : other ≠ child) (value : Value) :
    (s.assign target value).value? other = s.value? other :=
  (kept_assign (ht.not_reaches hn hc hr ho hne) value).value?

/-- From one store to the other, the snapshot of a node changes where that of a child changes, and
nowhere else. -/
def FollowsChild (s s' : Store) (id : NodeId) (segment : String) (child : NodeId) : Prop :=
  ∀ w, s.value? id = some w → ∃ v, s.value? child = some v ∧
    ∀ rest new, s'.value? child = some (v.replace rest new) →
      s'.value? id = some (w.replace (segment :: rest) new) ∧
        (w.replace (segment :: rest) new).part segment = v.replace rest new

section OneSegment

variable {child : NodeId} {segment : String}

theorem followsChild_field {fields : Fields NodeId} (ht : s.OwnsTree id)
    (h : s.slot? target = some slot) (hn : s.node? id = some (.composite fields))
    (hget : fields.get? segment = some child) (hr : s.Reaches child target) (value : Value) :
    FollowsChild s (s.assign target value) id segment child := by
  intro w hw
  rw [value?_composite hn] at hw
  obtain ⟨ws, hws, rfl⟩ := Option.map_eq_some_iff.1 hw
  have hchild : child ∈ fields.map (·.2) := List.mem_map.2 ⟨_, Fields.mem_of_get? hget, rfl⟩
  -- The snapshot leaves validations out, but what reaches the scalar is none.
  have hdata := get?_dataOf hget (isValidation_of_reaches hr h)
  have hsub : (s.dataOf fields).Sublist fields := List.filter_sublist
  have hnodup : ((s.dataOf fields).map (·.2)).Nodup := (ht.nodup hn).sublist (hsub.map _)
  obtain ⟨entry, -, hentry⟩ := exists_of_mapM hws (Fields.mem_of_get? hdata)
  obtain ⟨v, hv, -⟩ := Option.map_eq_some_iff.1 hentry
  have hfield : Fields.get? ws segment = some v := by
    rw [get?_mapM segment hws, hdata, Option.bind_some, hv]
  refine ⟨v, hv, fun rest new hafter => ⟨?_, Value.part_object_modify hfield _⟩⟩
  have hroot := (node?_assign_of_owns ⟨_, hn, hchild⟩ h value).trans hn
  have hone : (s.assign target value).value? child =
      (s.value? child).map fun v => v.replace rest new := by
    rw [hafter, hv]
    rfl
  have hothers : ∀ field ∈ s.dataOf fields, field.2 ≠ child →
      (s.assign target value).value? field.2 = s.value? field.2 := fun field hm hne =>
    value?_assign_sibling ht hn hchild hr (List.mem_map_of_mem (hsub.subset hm)) hne value
  rw [value?_composite hroot, dataOf_assign, mapM_modify_field hnodup hws hdata hone hothers]
  rfl

theorem followsChild_item {items : List NodeId} {i : Nat} (ht : s.OwnsTree id)
    (h : s.slot? target = some slot) (hn : s.node? id = some (.list items))
    (hi : Path.index? segment = some i) (hitem : items[i]? = some child)
    (hr : s.Reaches child target) (value : Value) :
    FollowsChild s (s.assign target value) id segment child := by
  intro w hw
  rw [value?_list hn] at hw
  obtain ⟨ws, hws, rfl⟩ := Option.map_eq_some_iff.1 hw
  have hchild : child ∈ items := List.mem_of_getElem? hitem
  have hnodup : items.Nodup := ht.nodup hn
  obtain ⟨v, -, hv⟩ := exists_of_mapM hws hchild
  have hv' : ws[i]? = some v := by rw [getElem?_mapM hws, hitem, Option.bind_some, hv]
  refine ⟨v, hv, fun rest new hafter => ?_⟩
  have hroot := (node?_assign_of_owns ⟨_, hn, hchild⟩ h value).trans hn
  have hone : (s.assign target value).value? child =
      (s.value? child).map fun v => v.replace rest new := by
    rw [hafter, hv]
    rfl
  have hothers : ∀ item ∈ items, item ≠ child →
      (s.assign target value).value? item = s.value? item := fun item hm hne =>
    value?_assign_sibling ht hn hchild hr hm hne value
  simp only [Value.replace, hi]
  refine ⟨?_, Value.part_array_modify hi hv' _⟩
  rw [value?_list hroot, mapM_modify hnodup hws hitem hone hothers]
  rfl

theorem followsChild_assign (ht : s.OwnsTree id) (h : s.slot? target = some slot)
    (hc : s.child? id segment = some child) (hr : s.Reaches child target) (value : Value) :
    FollowsChild s (s.assign target value) id segment child := by
  unfold child? at hc
  split at hc
  · next fields hn => exact followsChild_field ht h hn hc hr value
  · next items hn =>
    obtain ⟨i, hi, hitem⟩ := Option.bind_eq_some_iff.1 hc
    exact followsChild_item ht h hn hi hitem hr value
  · simp at hc

end OneSegment

/-- A scalar of a tree has one place in the snapshot of the root. -/
theorem value?_assign {segments : List String} {w : Value} (ht : s.OwnsTree root)
    (h : s.slot? target = some slot) (hv : s.value? root = some w)
    (hw : s.walk path root segments = .ok target) (value : Value) :
    (s.assign target value).value? root = some (w.replace segments value) ∧
      (w.replace segments value).along segments = value := by
  induction segments generalizing root w with
  | nil =>
    cases Except.ok.inj hw
    exact ⟨value?_scalar (node?_assign_self h value), rfl⟩
  | cons segment rest ih =>
    rw [walk] at hw
    cases hc : s.child? root segment with
    | none => simp [hc] at hw
    | some child =>
      simp only [hc] at hw
      obtain ⟨v, hvchild, hstep⟩ := followsChild_assign ht h hc (reaches_of_walk hw) value w hv
      obtain ⟨hafter, halong⟩ := ih (ht.of_owns (owns_of_child? hc)) hvchild hw
      obtain ⟨hroot, hpart⟩ := hstep rest value hafter
      refine ⟨hroot, ?_⟩
      rw [Value.along, List.foldl_cons, hpart]
      exact halong

/-! ## Setting by path -/

/-- What setting the scalar at a path does. -/
structure SetAt (root : NodeId) (path : Path) (value : Value) (target : NodeId)
    (s s' : Store) : Prop where
  /-- The path leads to the scalar as before, and there to the value. -/
  find_eq : s'.find root path = .ok target
  value_eq : s'.value? target = some value
  /-- The scalar keeps its declaration, and with it its default. -/
  slot : ∃ slot, s.slot? target = some slot ∧ s'.slot? target = some (slot.set value)
  /-- No other node changes, and none is added. -/
  node_eq : ∀ id, id ≠ target → s'.node? id = s.node? id
  size_eq : s'.size = s.size
  /-- In the snapshot of the root, the value takes the place that the path names. -/
  snapshot : ∃ w, s.value? root = some w ∧
    s'.value? root = some (w.replace (Path.segments path) value) ∧
    (w.replace (Path.segments path) value).along (Path.segments path) = value
  /-- Only what owns the scalar, directly or not, has another snapshot than before. -/
  elsewhere : ∀ id, ¬ s.Reaches id target → s'.value? id = s.value? id

theorem setAt_assign (hs : s.Closed) (hroot : s.Has root) (ht : s.OwnsTree root)
    (hf : s.find root path = .ok target) (h : s.slot? target = some slot) (value : Value) :
    SetAt root path value target s (s.assign target value) := by
  have htree : (s.tree? root).isSome := (isSome_tree?_iff hs).2 ⟨hroot, ht.acc⟩
  obtain ⟨w, hw⟩ : ∃ w, s.value? root = some w :=
    Option.isSome_iff_exists.1 (by rwa [value?, Option.isSome_map])
  exact ⟨(find_assign s target value root path).trans hf,
    value?_scalar (node?_assign_self h value), ⟨slot, h, slot?_assign_self h value⟩,
    fun id hne => node?_assign_of_ne hne value, size_assign s target value,
    ⟨w, hw, value?_assign ht h hw hf value⟩, fun id hr => (kept_assign hr value).value?⟩

theorem set_eq_assign (hf : s.find root path = .ok target) (h : s.slot? target = some slot)
    (value : Value) : s.set root path value = .ok (s.assign target value) := by
  simp only [set, hf, bind, Except.bind, h]
  rfl

theorem set_of_find_error {e : Error} (hf : s.find root path = .error e) (value : Value) :
    s.set root path value = .error e := by
  rw [set, hf]
  rfl

theorem set_of_slot?_none (hf : s.find root path = .ok target) (h : s.slot? target = none)
    (value : Value) : s.set root path value = .error (.notAScalar path) := by
  simp only [set, hf, bind, Except.bind, h]

/-- A call succeeds exactly if the path leads to a scalar. -/
theorem set_eq_ok_iff {value : Value} :
    (∃ s', s.set root path value = .ok s') ↔
      ∃ target, s.find root path = .ok target ∧ (s.slot? target).isSome := by
  constructor
  · rintro ⟨s', h⟩
    cases hf : s.find root path with
    | error e => simp [set_of_find_error hf] at h
    | ok target =>
      refine ⟨target, rfl, ?_⟩
      cases hslot : s.slot? target with
      | none => simp [set_of_slot?_none hf hslot] at h
      | some slot => rfl
  · rintro ⟨target, hf, h⟩
    obtain ⟨slot, hslot⟩ := Option.isSome_iff_exists.1 h
    exact ⟨_, set_eq_assign hf hslot value⟩

/-- Of two calls for one scalar, the first one makes no difference. -/
theorem set_assign_self {path' : Path} (h : s.slot? target = some slot)
    (hf' : s.find root path' = .ok target) (value value' : Value) :
    (s.assign target value).set root path' value' = s.set root path' value' := by
  have hset := set_eq_assign ((find_assign s target value root path').trans hf')
    (slot?_assign_self h value) value'
  rw [hset, set_eq_assign hf' h, assign_eq_put (slot?_assign_self h value), assign_eq_put h,
    assign_eq_put h, put, put, put, Array.setIfInBounds_setIfInBounds]
  rfl

theorem assign_comm {target' : NodeId} {slot' : Slot} (hne : target' ≠ target)
    (h : s.slot? target = some slot) (h' : s.slot? target' = some slot') (value value' : Value) :
    (s.assign target value).assign target' value' =
      (s.assign target' value').assign target value := by
  have hindex : target.index ≠ target'.index := fun e => hne (congrArg NodeId.mk e).symm
  rw [assign_eq_put ((slot?_assign_of_ne hne value).trans h'), assign_eq_put h,
    assign_eq_put ((slot?_assign_of_ne hne.symm value').trans h), assign_eq_put h', put, put, put,
    put, Array.setIfInBounds_comm _ _ hindex]

end Store

end StateTree
