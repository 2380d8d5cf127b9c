import Mathlib.Order.WellFounded
import Mathlib.Data.Fintype.EquivFin
import StateTree.Proofs.Store.Growth
import StateTree.Proofs.Store.Snapshot

/-
  Ownership without rings. A node has a tree exactly if no chain of ownership below it goes on for
  ever (`isSome_tree?_iff`), so in a closed store without rings every node has one
  (`Acyclic.isSome_tree?`). Building closes no ring (`Build.acyclic`). Writing a field closes one
  exactly if the new child leads back to the composite (`acyclic_insertField_iff`).
-/

namespace StateTree.Store

open Relation

variable {given : NodeId → Prop} {s s' : Store} {id : NodeId}

/-- No node owns itself, directly or not. -/
def Acyclic (s : Store) : Prop := ∀ id, ¬ TransGen s.Owns id id

theorem acyclic_empty : Acyclic ∅ := fun id h => by
  obtain ⟨child, ho, -⟩ := TransGen.head'_iff.1 h
  have hlt := index_lt_size ho.has
  exact Nat.not_lt_zero _ hlt

theorem Acyclic.of_owns (h : s.Acyclic)
    (ho : ∀ parent child, s'.Owns parent child → s.Owns parent child) : s'.Acyclic :=
  fun id hc => h id (TransGen.mono ho id id hc)

/-- New edges close no ring if they all leave one node, and lead to nodes that do not lead back. -/
theorem Acyclic.of_new_edges {top : NodeId} (h : s.Acyclic)
    (ho : ∀ parent child, s'.Owns parent child →
      s.Owns parent child ∨ parent = top ∧ ¬ s'.Reaches child top) : s'.Acyclic := by
  -- A chain uses old edges only, or it passes through `top` and a node that does not lead back.
  have hsplit : ∀ {a b}, TransGen s'.Owns a b → TransGen s.Owns a b ∨
      ∃ child, s'.Reaches a top ∧ ¬ s'.Reaches child top ∧ s'.Reaches child b := fun {a b} hab => by
    induction hab with
    | @single b hab =>
      rcases ho a b hab with hold | ⟨rfl, hback⟩
      · exact Or.inl (.single hold)
      · exact Or.inr ⟨b, .refl, hback, .refl⟩
    | @tail b c hab hbc ih =>
      rcases ih with hold | ⟨child, htop, hback, hr⟩
      · rcases ho b c hbc with hbc | ⟨rfl, hback⟩
        · exact Or.inl (hold.tail hbc)
        · exact Or.inr ⟨c, hab.to_reflTransGen, hback, .refl⟩
      · exact Or.inr ⟨child, htop, hback, hr.tail hbc⟩
  intro id hc
  rcases hsplit hc with hold | ⟨child, htop, hback, hr⟩
  · exact h id hold
  · exact hback (hr.trans htop)

/-! ## Building -/

/-- What a new node is built over does not lead back to it. -/
theorem Build.not_reaches_next {parent child : NodeId} (hb : Build given s s') (hs : s.Closed)
    (h : NewEdge given s parent child) : ¬ s'.Reaches child s.next := by
  intro hr
  rcases h.2 with ⟨hhas, -⟩ | hlt
  · have hnext := hs.reaches hhas ((hb.extends_.reaches hs hhas).1 hr)
    exact ne_next hnext rfl
  · rcases hr.cases_head with rfl | ⟨below, ho, -⟩
    · exact Nat.lt_irrefl _ hlt
    · rcases hb.owns ho with ho | ⟨rfl, -⟩
      · exact absurd (index_lt_size ho.has) (Nat.not_lt.2 (Nat.le_of_lt hlt))
      · exact Nat.lt_irrefl _ hlt

theorem Build.acyclic (hb : Build given s s') (hs : s.Closed) (h : s.Acyclic) : s'.Acyclic :=
  h.of_new_edges fun _ _ ho =>
    (hb.owns ho).imp_right fun hnew => ⟨hnew.1, hb.not_reaches_next hs hnew⟩

theorem Growth.acyclic (hg : Growth given s s') (hs : s.Closed) (h : s.Acyclic) : s'.Acyclic := by
  induction hg with
  | refl => exact h
  | tail hg hstep ih => exact hstep.acyclic (Growth.closed hg hs) ih

/-! ## Writing fields -/

theorem node?_insertField {fields : Fields NodeId} (h : s.node? id = some (.composite fields))
    (name : String) (child other : NodeId) :
    (s.insertField id name child).node? other =
      if other = id then some (.composite (fields.insert name child)) else s.node? other := by
  unfold insertField
  rw [h]
  show (s.put id _).node? other = _
  rw [node?_put]
  by_cases e : other = id
  · rw [if_pos ⟨e, index_lt_size (has_of_node? h)⟩, if_pos e]
  · rw [if_neg fun k => e k.1, if_neg e]

theorem owns_insertField {fields : Fields NodeId} {name : String} {new parent child : NodeId}
    (h : s.node? id = some (.composite fields))
    (ho : (s.insertField id name new).Owns parent child) :
    s.Owns parent child ∨ parent = id ∧ child = new := by
  obtain ⟨node, hn, hm⟩ := ho
  rw [node?_insertField h] at hn
  split at hn
  · next e =>
    rw [← Option.some.inj hn] at hm
    rcases mem_children_insert hm with rfl | hm
    · exact Or.inr ⟨e, rfl⟩
    · exact Or.inl ⟨_, e ▸ h, hm⟩
  · exact Or.inl ⟨node, hn, hm⟩

/-- A field closes a ring exactly if the node in it leads back to the composite. -/
theorem acyclic_insertField_iff {fields : Fields NodeId} (h : s.Acyclic)
    (hid : s.node? id = some (.composite fields)) (name : String) (child : NodeId) :
    (s.insertField id name child).Acyclic ↔ ¬ s.Reaches child id := by
  constructor
  · intro hnew hr
    -- The way back needs none of the edges that leave the composite.
    have hback : ∀ {a}, s.Reaches a id → (s.insertField id name child).Reaches a id := fun ha => by
      induction ha using ReflTransGen.head_induction_on with
      | refl => exact .refl
      | @head a b hab _ ih =>
        by_cases e : a = id
        · exact e ▸ .refl
        · obtain ⟨node, hn, hm⟩ := hab
          exact ih.head ⟨node, by rw [node?_insertField hid, if_neg e, hn], hm⟩
    have hedge : (s.insertField id name child).Owns id child := by
      refine ⟨_, by rw [node?_insertField hid, if_pos rfl], ?_⟩
      exact List.mem_map.2 ⟨_, Fields.mem_of_get? (Fields.get?_insert_self fields name child), rfl⟩
    exact hnew id (TransGen.head' hedge (hback hr))
  · intro hback
    have hold : ∀ {a}, (s.insertField id name child).Reaches a id → s.Reaches a id := fun ha => by
      induction ha using ReflTransGen.head_induction_on with
      | refl => exact .refl
      | head hab _ ih =>
        rcases owns_insertField hid hab with hab | ⟨rfl, -⟩
        · exact ih.head hab
        · exact .refl
    exact h.of_new_edges fun _ _ ho =>
      (owns_insertField hid ho).imp_right fun ⟨e, e'⟩ => ⟨e, fun hr => hback (e' ▸ hold hr)⟩

/-! ## Removing nodes -/

theorem owns_of_dropOrphans {held : List NodeId} {parent child : NodeId}
    (h : (s.dropOrphans held).Owns parent child) : s.Owns parent child := by
  obtain ⟨node, hn, hm⟩ := h
  rw [node?_dropOrphans] at hn
  split at hn
  · exact ⟨node, hn, hm⟩
  · simp at hn

theorem Acyclic.sweepWithin (held : List NodeId) (rounds : Nat) (h : s.Acyclic) :
    (s.sweepWithin held rounds).Acyclic := by
  induction rounds generalizing s with
  | zero => exact h
  | succ rounds ih =>
    rw [Store.sweepWithin]
    split
    · exact h
    · exact ih (h.of_owns fun _ _ => owns_of_dropOrphans)

/-! ## Trees -/

theorem isSome_treeOver?_iff {below : NodeId → Option Tree} :
    (s.treeOver? below id).isSome ↔
      s.Has id ∧ ∀ child, s.Owns id child → (below child).isSome := by
  unfold treeOver? Has Owns
  cases s.node? id with
  | none => simp
  | some node =>
    cases node with
    | composite fields =>
      simp only [Option.isSome_map, isSome_mapM_iff, Option.isSome_some, true_and,
        Option.some.injEq, exists_eq_left', Node.children, List.forall_mem_map]
    | _ => simp [isSome_mapM_iff, Node.children]

theorem acc_of_treeWithin? (depth : Nat) (h : (s.treeWithin? depth id).isSome) :
    Acc (fun child parent => s.Owns parent child) id := by
  induction depth generalizing id with
  | zero => simp [treeWithin?] at h
  | succ depth ih =>
    rw [treeWithin?_succ, isSome_treeOver?_iff] at h
    exact .intro _ fun child ho => ih (h.2 child ho)

/-- A node has a tree exactly if no chain of ownership below it goes on for ever. -/
theorem isSome_tree?_iff (hs : s.Closed) :
    (s.tree? id).isSome ↔ s.Has id ∧ Acc (fun child parent => s.Owns parent child) id := by
  constructor
  · intro h
    refine ⟨?_, acc_of_treeWithin? s.size h⟩
    rw [tree?_eq, isSome_treeOver?_iff] at h
    exact h.1
  · rintro ⟨hhas, hacc⟩
    induction hacc with
    | intro id _ ih =>
      rw [tree?_eq, isSome_treeOver?_iff]
      exact ⟨hhas, fun child ho => ih child ho (hs.owns ho)⟩

/-- Nothing that this node reaches owns itself, directly or not. -/
def AcyclicBelow (s : Store) (root : NodeId) : Prop :=
  ∀ id, s.Reaches root id → ¬ TransGen s.Owns id id

/-- There are finitely many nodes, so a chain of ownership that goes on for ever comes back. -/
theorem AcyclicBelow.acc {root : NodeId} (h : s.AcyclicBelow root) (hs : s.Closed) :
    Acc (fun child parent => s.Owns parent child) root := by
  let below (child parent : Fin s.size) : Prop :=
    s.Reaches root ⟨parent⟩ ∧ TransGen s.Owns ⟨parent⟩ ⟨child⟩
  have : IsTrans (Fin s.size) below := ⟨fun _ _ _ hab hbc => ⟨hbc.1, hbc.2.trans hab.2⟩⟩
  have : Std.Irrefl below := ⟨fun i hi => h ⟨i⟩ hi.1 hi.2⟩
  have hwf : WellFounded below := Finite.wellFounded_of_trans_of_irrefl below
  have hfin : ∀ i : Fin s.size, s.Reaches root ⟨i⟩ →
      Acc (fun child parent => s.Owns parent child) ⟨i⟩ := fun i => by
    induction i using hwf.induction with
    | _ i ih =>
      exact fun hr => .intro _ fun child ho =>
        ih ⟨child.index, index_lt_size (hs.owns ho)⟩ ⟨hr, .single ho⟩ (hr.tail ho)
  exact .intro _ fun child ho => hfin ⟨child.index, index_lt_size (hs.owns ho)⟩ (.single ho)

theorem Acyclic.acc (h : s.Acyclic) (hs : s.Closed) (id : NodeId) :
    Acc (fun child parent => s.Owns parent child) id :=
  AcyclicBelow.acc (fun other _ => h other) hs

theorem Acyclic.isSome_tree? (h : s.Acyclic) (hs : s.Closed) (hid : s.Has id) :
    (s.tree? id).isSome :=
  (isSome_tree?_iff hs).2 ⟨hid, h.acc hs id⟩

end StateTree.Store
