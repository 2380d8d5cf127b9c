import StateTree.Proofs.Store.Indexing
import StateTree.Proofs.Store.Locality

/-
  Giving scalars their defaults again. Resetting and disconnecting go through the scalars below a
  node and restore all of them, or those that are declared so. What they do is said by `Restores`:
  the chosen scalars that the node owns, directly or not, hold their defaults, and every other node
  is as it was, which leaves one store only (`Restores.unique`). Restoring some scalars and then
  some others restores both kinds (`Restores.trans`), from which the laws on the order of the calls
  follow. The walk changes the store as it goes, child by child (`eachSlot?_children`),
  and it comes by a shared scalar more than once.
-/

namespace StateTree

/-! ## Slots -/

namespace Slot

variable {chosen : Declaration → Bool}

/-- Resets the slot if its declaration is among the chosen ones. -/
def restore (chosen : Declaration → Bool) (slot : Slot) : Slot :=
  if chosen slot.declaration then slot.reset else slot

@[simp] theorem declaration_restore (chosen : Declaration → Bool) (slot : Slot) :
    (slot.restore chosen).declaration = slot.declaration := by
  unfold restore
  split <;> rfl

theorem restore_of_chosen {slot : Slot} (h : chosen slot.declaration = true) :
    slot.restore chosen = slot.reset := if_pos h

theorem restore_of_not_chosen {slot : Slot} (h : ¬ chosen slot.declaration = true) :
    slot.restore chosen = slot := if_neg h

theorem restore_restore (chosen : Declaration → Bool) (slot : Slot) :
    (slot.restore chosen).restore chosen = slot.restore chosen := by
  by_cases h : chosen slot.declaration = true
  · have hreset : chosen slot.reset.declaration = true := h
    rw [restore_of_chosen h, restore_of_chosen hreset]
    rfl
  · rw [restore_of_not_chosen h, restore_of_not_chosen h]

end Slot

namespace Store

variable {s s' s'' : Store} {root id child other : NodeId} {slot : Slot} {t : Tree}

/-! ## The scalars below a node -/

theorem scalars_subset_of_owns (h : s.tree? id = some t) (ho : s.Owns id child) :
    ∃ t', s.tree? child = some t' ∧ t'.scalars ⊆ t.scalars := by
  obtain ⟨node, hn, hm⟩ := ho
  rw [tree?_eq, treeOver?, hn] at h
  cases node with
  | scalar slot => simp [Node.children] at hm
  | validation target => simp [Node.children] at hm
  | list items =>
    obtain ⟨ts, hts, rfl⟩ := Option.map_eq_some_iff.1 h
    obtain ⟨t', ht', hchild⟩ := exists_of_mapM hts hm
    refine ⟨t', hchild, fun scalar hs => ?_⟩
    rw [Tree.scalars, Tree.scalarsOfItems_eq_flatMap]
    exact List.mem_flatMap.2 ⟨t', ht', hs⟩
  | composite fields =>
    obtain ⟨ts, hts, rfl⟩ := Option.map_eq_some_iff.1 h
    obtain ⟨field, hfield, rfl⟩ := List.mem_map.1 hm
    obtain ⟨entry, hentry, hone⟩ := exists_of_mapM hts hfield
    obtain ⟨t', hchild, rfl⟩ := Option.map_eq_some_iff.1 hone
    refine ⟨t', hchild, fun scalar hs => ?_⟩
    rw [Tree.scalars, Tree.scalarsOfFields_eq_flatMap]
    exact List.mem_flatMap.2 ⟨_, hentry, hs⟩

/-- The walk comes by every scalar that the node owns, directly or not. -/
theorem mem_scalars_of_reaches (h : s.tree? id = some t) (hr : s.Reaches id other)
    (hslot : s.slot? other = some slot) : other ∈ t.scalars := by
  induction hr using Relation.ReflTransGen.head_induction_on generalizing t with
  | refl =>
    rw [tree?_eq, treeOver?, node?_of_slot? hslot] at h
    cases Option.some.inj h
    exact List.mem_singleton_self other
  | head ho _ ih =>
    obtain ⟨t', ht', hsub⟩ := scalars_subset_of_owns h ho
    exact hsub (ih ht')

/-! ## Changing slots, some of them more than once -/

theorem size_mapSlot (s : Store) (id : NodeId) (f : Slot → Slot) :
    (s.mapSlot id f).size = s.size := by
  unfold mapSlot
  split
  · exact size_put s id _
  · rfl

theorem size_mapSlots (s : Store) (ids : List NodeId) (f : Slot → Slot) :
    (s.mapSlots ids f).size = s.size := by
  unfold mapSlots
  induction ids generalizing s with
  | nil => rfl
  | cons id rest ih => rw [List.foldl_cons, ih, size_mapSlot]

theorem slot?_mapSlot (s : Store) (id : NodeId) (f : Slot → Slot) (other : NodeId) :
    (s.mapSlot id f).slot? other =
      if other = id then (s.slot? id).map f else s.slot? other := by
  rw [slot?, node?_mapSlot]
  by_cases e : other = id
  · rw [if_pos e, if_pos e, slot?]
    cases s.node? id with
    | none => rfl
    | some node => cases node <;> rfl
  · rw [if_neg e, if_neg e, slot?]

/-- Coming by a slot again makes no difference where the change is made once and for all. -/
theorem slot?_mapSlots {f : Slot → Slot} (hf : ∀ slot, f (f slot) = f slot) {ids : List NodeId}
    (hm : other ∈ ids) (h : s.slot? other = some slot) :
    (s.mapSlots ids f).slot? other = some (f slot) := by
  unfold mapSlots
  induction ids generalizing s slot with
  | nil => simp at hm
  | cons id rest ih =>
    rw [List.foldl_cons]
    have hone := slot?_mapSlot s id f other
    -- The slot may have been changed already when the walk comes by again.
    by_cases hrest : other ∈ rest
    · by_cases e : other = id
      · rw [if_pos e, show s.slot? id = some slot from e ▸ h] at hone
        rw [ih hrest hone, hf]
      · rw [if_neg e, h] at hone
        exact ih hrest hone
    · have e : other = id := (List.mem_cons.1 hm).resolve_right hrest
      rw [if_pos e, show s.slot? id = some slot from e ▸ h] at hone
      rw [slot?, ← mapSlots, node?_mapSlots _ _ _ hrest]
      exact hone

/-- Stores of one size that have the same node at every identity are one and the same. -/
theorem eq_of_node? (hsize : s'.size = s.size) (h : ∀ id, s'.node? id = s.node? id) : s' = s := by
  obtain ⟨cells⟩ := s
  obtain ⟨cells'⟩ := s'
  refine congrArg Store.mk (Array.ext hsize fun i hi' hi => ?_)
  have hcell : cells'[i]?.join = cells[i]?.join := h ⟨i⟩
  rwa [Array.getElem?_eq_getElem hi', Array.getElem?_eq_getElem hi] at hcell

/-! ## Restoring defaults -/

variable {chosen chosen' : Declaration → Bool}

/-- From one store to the other, the scalars below the root that are declared in a chosen way have
got their defaults again, and nothing else has changed. -/
structure Restores (root : NodeId) (chosen : Declaration → Bool) (s s' : Store) : Prop where
  /-- A chosen scalar that the root owns, directly or not, keeps its declaration and holds its
  default, null if it has none. -/
  restored : ∀ id slot, s.Reaches root id → s.slot? id = some slot →
    chosen slot.declaration = true →
      s'.slot? id = some ⟨slot.declaration, slot.declaration.default?.getD .null⟩
  /-- Any other node is the very same, be it a scalar that is not chosen, or a node that the root
  does not own, such as one that a validation below it refers to. -/
  node_eq : ∀ id, (∀ slot, s.Reaches root id → s.slot? id = some slot →
    ¬ chosen slot.declaration = true) → s'.node? id = s.node? id
  size_eq : s'.size = s.size

theorem Restores.slot? (h : Restores root chosen s s') (hr : s.Reaches root id)
    (hslot : s.slot? id = some slot) : s'.slot? id = some (slot.restore chosen) := by
  by_cases hc : chosen slot.declaration = true
  · rw [Slot.restore_of_chosen hc]
    exact h.restored id slot hr hslot hc
  · rw [Slot.restore_of_not_chosen hc, Store.slot?, h.node_eq id, ← Store.slot?, hslot]
    intro slot' _ hslot'
    rwa [Option.some.inj (hslot'.symm.trans hslot)]

theorem Restores.node?_of_slot?_none (h : Restores root chosen s s') (hslot : s.slot? id = none) :
    s'.node? id = s.node? id :=
  h.node_eq id fun slot' _ hslot' => by simp [hslot] at hslot'

theorem Restores.node?_of_not_reaches (h : Restores root chosen s s')
    (hr : ¬ s.Reaches root id) : s'.node? id = s.node? id :=
  h.node_eq id fun _ hr' _ => absurd hr' hr

/-- All that is said about the second store leaves only one. -/
theorem Restores.unique (h : Restores root chosen s s') (h' : Restores root chosen s s'') :
    s'' = s' := by
  refine eq_of_node? (h'.size_eq.trans h.size_eq.symm) fun id => ?_
  by_cases hr : s.Reaches root id
  · cases hslot : s.slot? id with
    | none => rw [h.node?_of_slot?_none hslot, h'.node?_of_slot?_none hslot]
    | some slot => rw [node?_of_slot? (h.slot? hr hslot), node?_of_slot? (h'.slot? hr hslot)]
  · rw [h.node?_of_not_reaches hr, h'.node?_of_not_reaches hr]

theorem Restores.outline? (h : Restores root chosen s s') (id : NodeId) :
    s'.outline? id = s.outline? id := by
  unfold Store.outline?
  by_cases hr : s.Reaches root id
  · cases hslot : s.slot? id with
    | none => rw [h.node?_of_slot?_none hslot]
    | some slot =>
      rw [node?_of_slot? (h.slot? hr hslot), node?_of_slot? hslot]
      simp [Node.outline, Slot.reset]
  · rw [h.node?_of_not_reaches hr]

/-- Restoring the ones and then the others restores both. -/
theorem Restores.trans (h : Restores root chosen s s') (h' : Restores root chosen' s' s'') :
    Restores root (fun d => chosen d || chosen' d) s s'' := by
  have hreach : ∀ {id}, s'.Reaches root id ↔ s.Reaches root id := reaches_iff_of_outline? h.outline?
  refine ⟨fun id slot hr hslot hc => ?_, fun id hnone => ?_, h'.size_eq.trans h.size_eq⟩
  · have hlast := h'.slot? (hreach.2 hr) (h.slot? hr hslot)
    rw [hlast]
    by_cases hc' : chosen' slot.declaration = true
    · rw [Slot.restore_of_chosen (by simpa using hc'), Slot.reset, Slot.declaration_restore]
      rfl
    · have hfirst : chosen slot.declaration = true := by simpa [hc'] using hc
      rw [Slot.restore_of_not_chosen (by simpa using hc'), Slot.restore_of_chosen hfirst]
      rfl
  · have hone : s'.node? id = s.node? id := h.node_eq id fun slot hr hslot hc =>
      hnone slot hr hslot (by simp [hc])
    rw [← hone]
    refine h'.node_eq id fun slot hr hslot hc => hnone slot (hreach.1 hr) ?_ (by simp [hc])
    rwa [Store.slot?, ← hone]

theorem Restores.congr (h : Restores root chosen s s') (hc : ∀ d, chosen d = chosen' d) :
    Restores root chosen' s s' := (funext hc : chosen = chosen') ▸ h

/-! ## The walk -/

/-- Changes the slots of the scalars below a node, from left to right. -/
def eachSlot? (f : Slot → Slot) (s : Store) (id : NodeId) : Option Store :=
  (s.tree? id).map fun t => s.mapSlots t.scalars f

theorem reset?_eq (s : Store) (id : NodeId) :
    s.reset? id = eachSlot? (Slot.restore fun _ => true) s id := rfl

theorem disconnect?_eq (s : Store) (id : NodeId) :
    s.disconnect? id = eachSlot? (Slot.restore (·.resetOnDisconnect)) s id := rfl

/-- The walk restores the chosen scalars below its node, and touches no other. -/
theorem restores_eachSlot? (h : eachSlot? (Slot.restore chosen) s root = some s') :
    Restores root chosen s s' := by
  obtain ⟨t, ht, rfl⟩ := Option.map_eq_some_iff.1 h
  have hslot : ∀ id slot, s.Reaches root id → s.slot? id = some slot →
      (s.mapSlots t.scalars (Slot.restore chosen)).slot? id = some (slot.restore chosen) :=
    fun id slot hr hslot =>
      slot?_mapSlots (Slot.restore_restore chosen) (mem_scalars_of_reaches ht hr hslot) hslot
  refine ⟨fun id slot hr hs hc => ?_, fun id hnone => ?_, size_mapSlots s t.scalars _⟩
  · rw [hslot id slot hr hs, Slot.restore_of_chosen hc]
    rfl
  · by_cases hm : id ∈ t.scalars
    · obtain ⟨hr, slot, hs⟩ := owned_of_mem_scalars _ ht hm
      rw [node?_of_slot? (hslot id slot hr hs),
        Slot.restore_of_not_chosen (hnone slot hr hs), node?_of_slot? hs]
    · exact node?_mapSlots s t.scalars _ hm

/-! ### From child to child -/

/-- The scalars below a node if those below the nodes that it owns are known. -/
def scalarsOver? (below : NodeId → Option (List NodeId)) (id : NodeId) :
    Node → Option (List NodeId)
  | .scalar _ => some [id]
  | node => (node.children.mapM below).map List.flatten

theorem scalars_treeOver? (s : Store) (below : NodeId → Option Tree) (id : NodeId) :
    (s.treeOver? below id).map Tree.scalars =
      (s.outline? id).bind (scalarsOver? (fun child => (below child).map Tree.scalars) id) := by
  unfold treeOver? Store.outline?
  cases s.node? id with
  | none => rfl
  | some node =>
    cases node with
    | scalar slot => rfl
    | validation target => rfl
    | list items =>
      show _ = (items.mapM fun child => (below child).map Tree.scalars).map List.flatten
      rw [mapM_option_map, Option.map_map, Option.map_map]
      exact Option.map_congr fun ts _ => Tree.scalarsOfItems_eq_flatMap ts
    | composite fields =>
      show _ = ((fields.map (·.2)).mapM fun child => (below child).map Tree.scalars).map
        List.flatten
      have hfields : ((fields.map (·.2)).mapM fun child => (below child).map Tree.scalars) =
          (fields.mapM fun field => (below field.2).map (field.1, ·)).map
            (List.map (·.2.scalars)) := by
        rw [← mapM_option_map, List.mapM_map]
        refine mapM_congr fun field _ => ?_
        rw [Option.map_map]
        rfl
      rw [hfields, Option.map_map, Option.map_map]
      exact Option.map_congr fun ts _ => Tree.scalarsOfFields_eq_flatMap ts

/-- The scalars below a node, from left to right. -/
def scalars? (s : Store) (id : NodeId) : Option (List NodeId) := (s.tree? id).map Tree.scalars

theorem scalars?_eq (s : Store) (id : NodeId) :
    s.scalars? id = (s.outline? id).bind (scalarsOver? s.scalars? id) := by
  rw [scalars?, tree?_eq, scalars_treeOver?]
  rfl

/-- Which scalars there are below a node does not depend on what they hold. -/
theorem scalars?_congr (h : ∀ id, s'.outline? id = s.outline? id) (id : NodeId) :
    s'.scalars? id = s.scalars? id := by
  -- Neither size is known, so both stores are searched as deep as the larger one needs.
  have hdepth : ∀ depth id, (s'.treeWithin? depth id).map Tree.scalars =
      (s.treeWithin? depth id).map Tree.scalars := fun depth => by
    induction depth with
    | zero => exact fun _ => rfl
    | succ depth ih =>
      intro id
      rw [treeWithin?_succ, treeWithin?_succ, scalars_treeOver?, scalars_treeOver?, h id,
        funext ih]
  have hmax := hdepth (max s.size s'.size) id
  rwa [treeWithin?_of_size_le s (Nat.le_max_left ..),
    treeWithin?_of_size_le s' (Nat.le_max_right ..)] at hmax

variable {f : Slot → Slot}

theorem eachSlot?_eq (f : Slot → Slot) (s : Store) (id : NodeId) :
    eachSlot? f s id = (s.scalars? id).map (s.mapSlots · f) := by
  rw [eachSlot?, scalars?, Option.map_map]
  rfl

theorem foldlM_eachSlot? (hf : ∀ slot, (f slot).declaration = slot.declaration) (s : Store)
    (ids : List NodeId) :
    ids.foldlM (eachSlot? f) s =
      (ids.mapM s.scalars?).map fun found => s.mapSlots found.flatten f := by
  induction ids generalizing s with
  | nil => rfl
  | cons id rest ih =>
    rw [List.foldlM_cons, eachSlot?_eq, List.mapM_cons]
    cases s.scalars? id with
    | none => rfl
    | some found =>
      have hrest : (s.mapSlots found f).scalars? = s.scalars? :=
        funext (scalars?_congr (outline?_mapSlots hf s found))
      show rest.foldlM (eachSlot? f) (s.mapSlots found f) = _
      rw [ih, hrest]
      cases rest.mapM s.scalars? with
      | none => rfl
      | some more => simp [mapSlots, List.foldl_append]

/-- What is no scalar is walked child by child, each in the store that the ones before it have
left. -/
theorem eachSlot?_children (hf : ∀ slot, (f slot).declaration = slot.declaration) {node : Node}
    (h : s.node? id = some node) (hscalar : ∀ slot, node ≠ .scalar slot) :
    eachSlot? f s id = node.children.foldlM (eachSlot? f) s := by
  rw [eachSlot?_eq, scalars?_eq, Store.outline?, h, foldlM_eachSlot? hf]
  cases node with
  | scalar slot => exact absurd rfl (hscalar slot)
  | validation target => rfl
  | _ => exact Option.map_map ..

theorem eachSlot?_scalar (h : s.node? id = some (.scalar slot)) :
    eachSlot? f s id = some (s.put id (.scalar (f slot))) := by
  rw [eachSlot?_eq, scalars?_eq, Store.outline?, h]
  show some (s.mapSlot id f) = _
  rw [mapSlot, h]

/-! ## Laws -/

/-- Where no chain of ownership goes on for ever, the walk comes to its end. -/
theorem exists_restores (chosen : Declaration → Bool) (htree : (s.tree? root).isSome) :
    ∃ s', eachSlot? (Slot.restore chosen) s root = some s' ∧ Restores root chosen s s' := by
  obtain ⟨t, ht⟩ := Option.isSome_iff_exists.1 htree
  have h : eachSlot? (Slot.restore chosen) s root =
      some (s.mapSlots t.scalars (Slot.restore chosen)) := by rw [eachSlot?, ht]; rfl
  exact ⟨_, h, restores_eachSlot? h⟩

theorem Restores.isSome_tree? (h : Restores root chosen s s') (htree : (s.tree? root).isSome) :
    (s'.tree? root).isSome := by
  have hscalars := scalars?_congr h.outline? root
  rw [scalars?, scalars?] at hscalars
  rwa [← Option.isSome_map, hscalars, Option.isSome_map]

/-- A second walk ends in the store that has both kinds restored. -/
theorem Restores.walk_again (h : Restores root chosen s s') (htree : (s.tree? root).isSome)
    (h' : Restores root (fun d => chosen d || chosen' d) s s'') :
    eachSlot? (Slot.restore chosen') s' root = some s'' := by
  obtain ⟨last, hwalk, hlast⟩ := exists_restores chosen' (h.isSome_tree? htree)
  rw [hwalk, (h'.unique (h.trans hlast)).symm]

theorem Intact.node?_of_slot?_none (h : Intact root s s') (hr : s.Reaches root id)
    (hslot : s.slot? id = none) : s'.node? id = s.node? id := by
  cases hn : s.node? id with
  | none =>
    have ho := h id hr
    rwa [Store.outline?, Store.outline?, hn, Option.map_none, Option.map_eq_none_iff] at ho
  | some node =>
    refine h.node? hr hn fun slot e => ?_
    rw [Store.slot?, hn, e] at hslot
    simp at hslot

/-- Restoring everything takes a node back to where its scalars held their defaults. -/
theorem Restores.kept (h : Restores root (fun _ => true) s' s'') (hi : Intact root s s')
    (hinitial : ∀ id slot, s.Reaches root id → s.slot? id = some slot → slot.reset = slot) :
    Kept root s s'' := by
  intro id hr
  cases hslot : s.slot? id with
  | some slot =>
    obtain ⟨slot', hslot', hd⟩ := hi.slot? hr (node?_of_slot? hslot)
    rw [node?_of_slot? (h.slot? (hi.reaches hr) hslot'), node?_of_slot? hslot,
      Slot.restore_of_chosen rfl, Slot.reset, hd, ← Slot.reset, hinitial id slot hr hslot]
  | none =>
    have hn := hi.node?_of_slot?_none hr hslot
    have hslot' : s'.slot? id = none := by rwa [Store.slot?, hn]
    rw [h.node?_of_slot?_none hslot', hn]

end Store

end StateTree
