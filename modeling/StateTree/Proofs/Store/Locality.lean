import StateTree.Proofs.Store.Run
import StateTree.Proofs.Store.Snapshot

/-
  What a call touches. Setting, resetting and disconnecting by way of a node change the values of
  scalars that the node owns, directly or not, and nothing else (`Call.node?`). So the snapshot of
  a node stays as it is under any calls on a tree that has no node in common with its own
  (`Calls.value?`).
-/

namespace StateTree

/-! ## The scalars of a tree -/

namespace Tree

theorem scalarsOfItems_eq_flatMap (items : List Tree) :
    scalarsOfItems items = items.flatMap scalars := by
  induction items with
  | nil => rfl
  | cons t rest ih => rw [scalarsOfItems, ih, List.flatMap_cons]

theorem scalarsOfFields_eq_flatMap (fields : List (String × Tree)) :
    scalarsOfFields fields = fields.flatMap (·.2.scalars) := by
  induction fields with
  | nil => rfl
  | cons field rest ih => rw [scalarsOfFields, ih, List.flatMap_cons]

end Tree

namespace Store

variable {s s' : Store} {root id other : NodeId}

/-- The walk comes by scalars only, and only by those that its node owns, directly or not. -/
theorem owned_of_mem_scalars (depth : Nat) {t : Tree} (h : s.treeWithin? depth id = some t)
    (hm : other ∈ t.scalars) : s.Reaches id other ∧ ∃ slot, s.slot? other = some slot := by
  induction depth generalizing id t with
  | zero => simp [treeWithin?] at h
  | succ depth ih =>
    rw [treeWithin?_succ, treeOver?] at h
    split at h
    · simp at h
    · next slot hn =>
      cases Option.some.inj h
      rw [Tree.scalars, List.mem_singleton] at hm
      exact ⟨hm ▸ .refl, slot, by rw [hm, Store.slot?, hn]⟩
    · next items hn =>
      obtain ⟨ts, hts, rfl⟩ := Option.map_eq_some_iff.1 h
      rw [Tree.scalars, Tree.scalarsOfItems_eq_flatMap] at hm
      obtain ⟨t, ht, hm⟩ := List.mem_flatMap.1 hm
      obtain ⟨item, hitem, hone⟩ := mem_of_mapM hts ht
      exact (ih hone hm).imp_left (.head ⟨_, hn, hitem⟩)
    · next fields hn =>
      obtain ⟨ts, hts, rfl⟩ := Option.map_eq_some_iff.1 h
      rw [Tree.scalars, Tree.scalarsOfFields_eq_flatMap] at hm
      obtain ⟨entry, hentry, hm⟩ := List.mem_flatMap.1 hm
      obtain ⟨field, hfield, hone⟩ := mem_of_mapM hts hentry
      obtain ⟨t, ht, rfl⟩ := Option.map_eq_some_iff.1 hone
      exact (ih ht hm).imp_left (.head ⟨_, hn, List.mem_map_of_mem hfield⟩)
    · cases Option.some.inj h
      simp [Tree.scalars] at hm

theorem reaches_of_walk {path : Path} {segments : List String}
    (h : s.walk path id segments = .ok other) : s.Reaches id other := by
  have hi : Intact id s s := fun _ _ => rfl
  exact (hi.walk_ok .refl h).2

theorem node?_mapSlots (s : Store) (ids : List NodeId) (f : Slot → Slot) (h : other ∉ ids) :
    (s.mapSlots ids f).node? other = s.node? other := by
  unfold mapSlots
  induction ids generalizing s with
  | nil => rfl
  | cons id rest ih =>
    rw [List.mem_cons, not_or] at h
    rw [List.foldl_cons, ih _ h.2, node?_mapSlot, if_neg h.1]

/-! ## Calls -/

/-- A call on a node that gives scalars other values. -/
inductive Call (id : NodeId) (s : Store) : Store → Prop
  | set {path : Path} {value : Value} {s' : Store} (h : s.set id path value = .ok s') : Call id s s'
  | assign (value : Value) : Call id s (s.assign id value)
  | reset {s' : Store} (h : s.reset? id = some s') : Call id s s'
  | disconnect {s' : Store} (h : s.disconnect? id = some s') : Call id s s'

/-- A call is a step of a program, whatever the program holds on to. -/
theorem Call.step (h : Call id s s') (root : NodeId) : Step root s s' := by
  cases h with
  | set h => exact .set h
  | assign value => exact .assign id value
  | reset h => exact .reset h
  | disconnect h => exact .disconnect h

theorem Call.outline? (h : Call id s s') (other : NodeId) :
    s'.outline? other = s.outline? other :=
  (h.step other).intact other .refl

/-- A call changes no node but those that its own node reaches. -/
theorem Call.node? (h : Call id s s') (hr : ¬ s.Reaches id other) :
    s'.node? other = s.node? other := by
  cases h with
  | @set path value _ h =>
    unfold Store.set at h
    cases hf : s.find id path with
    | error e => simp [hf, bind, Except.bind] at h
    | ok target =>
      simp only [hf, bind, Except.bind] at h
      split at h
      · cases Except.ok.inj h
        rw [Store.assign, node?_mapSlot, if_neg]
        rintro rfl
        exact hr (reaches_of_walk hf)
      · simp at h
  | assign value =>
    rw [Store.assign, node?_mapSlot, if_neg]
    rintro rfl
    exact hr .refl
  | reset h =>
    obtain ⟨t, ht, rfl⟩ := Option.map_eq_some_iff.1 h
    exact node?_mapSlots s _ _ fun hm => hr (owned_of_mem_scalars _ ht hm).1
  | disconnect h =>
    obtain ⟨t, ht, rfl⟩ := Option.map_eq_some_iff.1 h
    exact node?_mapSlots s _ _ fun hm => hr (owned_of_mem_scalars _ ht hm).1

/-! ## Calls on one tree -/

/-- Calls, one after the other, each on a node of the tree below `root`. -/
abbrev Calls (root : NodeId) : Store → Store → Prop :=
  Relation.ReflTransGen fun s s' => ∃ id, s.Reaches root id ∧ Call id s s'

/-- No node is below both. -/
def Apart (s : Store) (a b : NodeId) : Prop := ∀ id, s.Reaches a id → ¬ s.Reaches b id

theorem Apart.symm {a b : NodeId} (h : s.Apart a b) : s.Apart b a := fun id hb ha => h id ha hb

theorem owns_iff_of_outline? (h : ∀ id, s'.outline? id = s.outline? id) {parent child : NodeId} :
    s'.Owns parent child ↔ s.Owns parent child :=
  Intact.owns_iff fun id _ => h id

theorem reaches_iff_of_outline? (h : ∀ id, s'.outline? id = s.outline? id) {a b : NodeId} :
    s'.Reaches a b ↔ s.Reaches a b :=
  Intact.reaches_iff fun id _ => h id

theorem Calls.outline? (h : Calls root s s') (other : NodeId) :
    s'.outline? other = s.outline? other := by
  induction h with
  | refl => rfl
  | tail _ hstep ih =>
    obtain ⟨id, -, hcall⟩ := hstep
    rw [hcall.outline? other, ih]

/-- Calls on a tree leave all nodes of another one as they are. -/
theorem Calls.kept (h : Calls root s s') (ha : s.Apart root other) : Kept other s s' := by
  induction h with
  | refl => exact fun _ _ => rfl
  | @tail s₁ s₂ hcalls hstep ih =>
    obtain ⟨id, hid, hcall⟩ := hstep
    intro node hr
    rw [← ih node hr]
    refine hcall.node? fun hnode => ha node ?_ hr
    exact (reaches_iff_of_outline? (Calls.outline? hcalls)).1 (hid.trans hnode)

theorem Kept.value? (h : Kept id s s') : s'.value? id = s.value? id := by
  unfold Store.value?
  rw [tree?_congr h (fun _ node hr hn child hm => hr.tail ⟨node, hn, hm⟩) .refl]

/-- No calls on a tree change the snapshot of another one. -/
theorem Calls.value? (h : Calls root s s') (ha : s.Apart root other) :
    s'.value? other = s.value? other :=
  (h.kept ha).value?

end Store

end StateTree
