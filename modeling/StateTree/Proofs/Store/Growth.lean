import StateTree.Proofs.Store.Run

/-
  Stores that grow. Building adds a node over nodes that are there and changes no other: each new
  edge of ownership leaves a node that is new, and leads to another new node or to one that was
  given (`Growth.owns`). So what was in the store reaches exactly what it reached before
  (`Extends.reaches`), and what is built reaches only what is new or what the given nodes reached
  (`Growth.reaches`).
-/

namespace StateTree.Store

variable {given : NodeId → Prop} {s s' s'' : Store} {id : NodeId}

/-! ## Ownership in an extension -/

theorem Owns.has {parent child : NodeId} (h : s.Owns parent child) : s.Has parent :=
  let ⟨_, hn, _⟩ := h
  has_of_node? hn

theorem Closed.owns {parent child : NodeId} (hs : s.Closed) (h : s.Owns parent child) :
    s.Has child :=
  let ⟨node, hn, hm⟩ := h
  hs parent node hn child hm

theorem Closed.reaches {other : NodeId} (hs : s.Closed) (hid : s.Has id)
    (h : s.Reaches id other) : s.Has other := by
  induction h with
  | refl => exact hid
  | tail _ ho => exact hs.owns ho

theorem Extends.kept (h : s.Extends s') (hs : s.Closed) (hid : s.Has id) : Kept id s s' :=
  fun _ hr => h.node? (hs.reaches hid hr)

/-- What was there reaches what it reached before, and nothing else. -/
theorem Extends.reaches (h : s.Extends s') (hs : s.Closed) (hid : s.Has id) {other : NodeId} :
    s'.Reaches id other ↔ s.Reaches id other :=
  (h.kept hs hid).intact.reaches_iff

/-! ## Adding validations to a composite -/

/-- Whatever the names of the checks, the composite owns what it owned and new nodes, these own
nothing, and all other nodes are as they were. -/
theorem foldl_addValidation_frame (checks : List (String × Option NodeId)) {fields : Fields NodeId}
    (h : s.node? id = some (.composite fields)) :
    (∀ other, other.index < s.size → other ≠ id →
      (checks.foldl (fun s v => s.addValidation id v.1 v.2) s).node? other = s.node? other) ∧
    s.size ≤ (checks.foldl (fun s v => s.addValidation id v.1 v.2) s).size ∧
    (checks.foldl (fun s v => s.addValidation id v.1 v.2) s).Has id ∧
    ∀ parent child, (checks.foldl (fun s v => s.addValidation id v.1 v.2) s).Owns parent child →
      s.Owns parent child ∨ parent = id ∧ s.size ≤ child.index := by
  induction checks generalizing s fields with
  | nil => exact ⟨fun _ _ _ => rfl, Nat.le_refl _, has_of_node? h, fun _ _ ho => Or.inl ho⟩
  | cons check rest ih =>
    obtain ⟨name, target⟩ := check
    have hnode := node?_addValidation h name target
    have hsize := size_addValidation h name target
    have hid : (s.addValidation id name target).node? id =
        some (.composite (fields.insert name s.next)) := by rw [hnode, if_pos rfl]
    obtain ⟨hsame, hle, hhas, hown⟩ := ih hid
    rw [List.foldl_cons]
    refine ⟨fun other ho hne => ?_, Nat.le_trans (by omega) hle, hhas, fun parent child ho => ?_⟩
    · have hnext : other ≠ s.next := fun e => by
        rw [e] at ho
        exact Nat.lt_irrefl _ ho
      rw [hsame other (by omega) hne, hnode, if_neg hne, if_neg hnext]
    · rcases hown parent child ho with ⟨node, hn, hm⟩ | ⟨hp, hc⟩
      · rw [hnode] at hn
        split at hn
        · next e =>
          rw [← Option.some.inj hn] at hm
          rcases mem_children_insert hm with rfl | hm
          · exact Or.inr ⟨e, Nat.le_refl _⟩
          · exact Or.inl ⟨_, e ▸ h, hm⟩
        · split at hn
          · simp [← Option.some.inj hn, Node.children] at hm
          · exact Or.inl ⟨node, hn, hm⟩
      · exact Or.inr ⟨hp, by omega⟩

/-! ## Building -/

/-- Builds one node, and with a record its validations. What a node is built over is there and is
given. -/
inductive Build (given : NodeId → Prop) (s : Store) : Store → Prop
  | scalar (d : Declaration) : Build given s (s.scalar d).2
  | validation (target : NodeId) : Build given s (s.validation target).2
  | list {items : List NodeId} (h : ∀ item ∈ items, s.Has item ∧ given item) :
      Build given s (s.list items).2
  | record {fields : Fields NodeId} (h : ∀ field ∈ fields, s.Has field.2 ∧ given field.2)
      (checks : List (String × Option NodeId)) : Build given s (s.record fields checks).2

/-- An edge from `s.next` to a node that is there and is given, or to one that is newer still. -/
def NewEdge (given : NodeId → Prop) (s : Store) (parent child : NodeId) : Prop :=
  parent = s.next ∧ (s.Has child ∧ given child ∨ s.size < child.index)

theorem owns_alloc {node : Node} {parent child : NodeId} (h : (s.alloc node).2.Owns parent child) :
    s.Owns parent child ∨ parent = s.next ∧ child ∈ node.children := by
  obtain ⟨other, hn, hm⟩ := h
  rw [node?_alloc] at hn
  split at hn
  · next e => exact Or.inr ⟨e, Option.some.inj hn ▸ hm⟩
  · exact Or.inl ⟨other, hn, hm⟩

theorem size_alloc (s : Store) (node : Node) : (s.alloc node).2.size = s.size + 1 :=
  size_push s node

/-- The new node is there, all else is as it was, and only the new node owns more than before. -/
theorem Build.spec (h : Build given s s') :
    s.Extends s' ∧ s'.Has s.next ∧ ∀ parent child, s'.Owns parent child →
      s.Owns parent child ∨ NewEdge given s parent child := by
  have hnext : ∀ node, (s.alloc node).2.node? s.next = some node := fun node => by
    rw [node?_alloc, if_pos rfl]
  cases h with
  | scalar d =>
    refine ⟨extends_alloc s _, has_of_node? (hnext _), fun parent child ho => ?_⟩
    exact (owns_alloc ho).imp_right fun hm => absurd hm.2 (by simp [Node.children])
  | validation target =>
    refine ⟨extends_alloc s _, has_of_node? (hnext _), fun parent child ho => ?_⟩
    exact (owns_alloc ho).imp_right fun hm => absurd hm.2 (by simp [Node.children])
  | list h =>
    refine ⟨extends_alloc s _, has_of_node? (hnext _), fun parent child ho => ?_⟩
    exact (owns_alloc ho).imp_right fun hm => ⟨hm.1, Or.inl (h child hm.2)⟩
  | @record fields h checks =>
    obtain ⟨hsame, hle, hhas, hown⟩ := foldl_addValidation_frame checks (hnext (.composite fields))
    have hext := extends_alloc s (.composite fields)
    refine ⟨⟨Nat.le_trans hext.size_le hle, fun other ho => ?_⟩, hhas, fun parent child ho => ?_⟩
    · have hne : other ≠ s.next := fun e => by
        rw [e] at ho
        exact Nat.lt_irrefl _ ho
      exact (hsame other (Nat.lt_of_lt_of_le ho hext.size_le) hne).trans (hext.same other ho)
    · rcases hown parent child ho with ho | ⟨hp, hc⟩
      · refine (owns_alloc ho).imp_right fun hm => ⟨hm.1, Or.inl ?_⟩
        obtain ⟨field, hf, rfl⟩ := List.mem_map.1 hm.2
        exact h field hf
      · rw [size_alloc] at hc
        exact Or.inr ⟨hp, Or.inr hc⟩

theorem Build.extends_ (h : Build given s s') : s.Extends s' := h.spec.1

theorem Build.owns {parent child : NodeId} (h : Build given s s') (ho : s'.Owns parent child) :
    s.Owns parent child ∨ NewEdge given s parent child :=
  h.spec.2.2 parent child ho

theorem Build.closed (h : Build given s s') (hs : s.Closed) : s'.Closed := by
  cases h with
  | scalar d => exact hs.alloc (by simp [Node.children])
  | validation target => exact hs.alloc (by simp [Node.children])
  | list h => exact hs.alloc fun child hm => (h child hm).1
  | record h checks => exact hs.record (fun field hm => (h field hm).1) checks

/-! ## Building again and again -/

abbrev Growth (given : NodeId → Prop) : Store → Store → Prop := Relation.ReflTransGen (Build given)

theorem Growth.extends_ (h : Growth given s s') : s.Extends s' := by
  induction h with
  | refl => exact .refl s
  | tail _ hstep ih => exact ih.trans hstep.extends_

theorem Growth.closed (h : Growth given s s') (hs : s.Closed) : s'.Closed := by
  induction h with
  | refl => exact hs
  | tail _ hstep ih => exact hstep.closed ih

/-- A new edge leaves a new node, and leads to a new node or to one that was given. -/
theorem Growth.owns {parent child : NodeId} (h : Growth given s s') (ho : s'.Owns parent child) :
    s.Owns parent child ∨ s.size ≤ parent.index ∧ (given child ∨ s.size ≤ child.index) := by
  induction h with
  | refl => exact Or.inl ho
  | @tail s₁ s₂ hg hstep ih =>
    have hle : s.size ≤ s₁.size := Growth.extends_ hg |>.size_le
    rcases hstep.owns ho with ho | ⟨rfl, ⟨-, hc⟩ | hc⟩
    · exact ih ho
    · exact Or.inr ⟨hle, Or.inl hc⟩
    · exact Or.inr ⟨hle, Or.inr (by omega)⟩

/-- From a new node on, everything is new or was reached from one of the given nodes before. -/
theorem Growth.reaches {other : NodeId} (h : Growth given s s')
    (hid : s.size ≤ id.index ∨ given id) (hr : s'.Reaches id other) :
    s.size ≤ other.index ∨ ∃ node, given node ∧ s.Reaches node other := by
  induction hr with
  | refl => exact hid.imp_right fun hg => ⟨id, hg, .refl⟩
  | @tail parent child _ ho ih =>
    rcases h.owns ho with ho | ⟨-, hc | hc⟩
    · rcases ih with hp | ⟨node, hg, hr⟩
      · exact absurd (index_lt_size ho.has) (Nat.not_lt.2 hp)
      · exact Or.inr ⟨node, hg, hr.tail ho⟩
    · exact Or.inr ⟨child, hc, .refl⟩
    · exact Or.inl hc

end StateTree.Store
