import Mathlib.Logic.Relation
import StateTree.Proofs.Store.Extension
import StateTree.Store.Liveness
import StateTree.Store.Update

/-
  Runs of a program that holds on to a node. A program sets scalars, resets them, disconnects, and
  lets go of nodes, in any order and on any nodes. What the node that it holds owns, directly or
  not, stays as it is but for the values of scalars (`intact_of_run`), so a path leads from there to
  the same node as before (`Intact.walk_ok`).
-/

namespace StateTree

/-- A node but for the value that a scalar holds now. -/
def Node.outline : Node → Node
  | .scalar slot => .scalar slot.reset
  | node => node

theorem Node.children_outline (node : Node) : node.outline.children = node.children := by
  cases node <;> rfl

namespace Store

variable {s s' s'' : Store} {root id : NodeId}

def outline? (s : Store) (id : NodeId) : Option Node := (s.node? id).map Node.outline

def Owns (s : Store) (parent child : NodeId) : Prop :=
  ∃ node, s.node? parent = some node ∧ child ∈ node.children

/-- From one node to another through what each owns. -/
abbrev Reaches (s : Store) : NodeId → NodeId → Prop := Relation.ReflTransGen s.Owns

/-- A node that owns nothing reaches nothing but itself. -/
theorem eq_of_reaches_leaf {node : Node} {other : NodeId} (hn : s.node? id = some node)
    (hleaf : node.children = []) (hr : s.Reaches id other) : other = id := by
  rcases hr.cases_head with rfl | ⟨child, ⟨node', hn', hm⟩, -⟩
  · rfl
  · cases Option.some.inj (hn.symm.trans hn')
    simp [hleaf] at hm

theorem owns_iff_outline? {parent child : NodeId} :
    s.Owns parent child ↔ ∃ node, s.outline? parent = some node ∧ child ∈ node.children := by
  unfold Owns outline?
  constructor
  · rintro ⟨node, hn, hm⟩
    exact ⟨node.outline, by rw [hn]; rfl, by rwa [Node.children_outline]⟩
  · rintro ⟨node, hn, hm⟩
    obtain ⟨node', hn', rfl⟩ := Option.map_eq_some_iff.1 hn
    exact ⟨node', hn', by rwa [Node.children_outline] at hm⟩

theorem owns_of_child? {segment : String} {child : NodeId} (h : s.child? id segment = some child) :
    s.Owns id child :=
  mem_children_of_child? h

theorem has_iff_outline? : s.Has id ↔ (s.outline? id).isSome := by
  unfold Has outline?
  rw [Option.isSome_map]

/-! ## Steps -/

/-- What a program that holds on to `root` may do next. A call that fails changes nothing, so it
is no step. -/
inductive Step (root : NodeId) (s : Store) : Store → Prop
  | set {id : NodeId} {path : Path} {value : Value} {s' : Store}
      (h : s.set id path value = .ok s') : Step root s s'
  | assign (id : NodeId) (value : Value) : Step root s (s.assign id value)
  | reset {id : NodeId} {s' : Store} (h : s.reset? id = some s') : Step root s s'
  | disconnect {id : NodeId} {s' : Store} (h : s.disconnect? id = some s') : Step root s s'
  /-- Other nodes are let go, and what nobody holds or owns any more is removed. -/
  | sweep {held : List NodeId} (h : root ∈ held) : Step root s (s.sweep held)

abbrev Run (root : NodeId) : Store → Store → Prop := Relation.ReflTransGen (Step root)

/-- All that the root owns, directly or not, is there as it was, but for the values of scalars. -/
def Intact (root : NodeId) (s s' : Store) : Prop :=
  ∀ id, s.Reaches root id → s'.outline? id = s.outline? id

theorem Intact.of_reaches (h : Intact root s s') (hr : s.Reaches root id) : Intact id s s' :=
  fun other ho => h other (hr.trans ho)

theorem Intact.owns_iff {child : NodeId} (h : Intact root s s') :
    s'.Owns root child ↔ s.Owns root child := by
  rw [owns_iff_outline?, h root .refl, ← owns_iff_outline?]

theorem Intact.reaches_iff (h : Intact root s s') : s'.Reaches root id ↔ s.Reaches root id := by
  constructor
  · intro hr
    induction hr with
    | refl => exact .refl
    | tail _ ho ih => exact ih.tail ((h.of_reaches ih).owns_iff.1 ho)
  · intro hr
    induction hr with
    | refl => exact .refl
    | tail hp ho ih => exact ih.tail ((h.of_reaches hp).owns_iff.2 ho)

theorem Intact.reaches (h : Intact root s s') (hr : s.Reaches root id) : s'.Reaches root id :=
  h.reaches_iff.2 hr

theorem Intact.trans (h : Intact root s s') (h' : Intact root s' s'') : Intact root s s'' :=
  fun id hr => by rw [h' id (h.reaches hr), h id hr]

/-- All that the root owns, directly or not, is there just as it was. -/
def Kept (root : NodeId) (s s' : Store) : Prop := ∀ id, s.Reaches root id → s'.node? id = s.node? id

theorem Kept.intact (h : Kept root s s') : Intact root s s' := fun id hr => by
  rw [outline?, outline?, h id hr]

theorem Kept.trans (h : Kept root s s') (h' : Kept root s' s'') : Kept root s s'' :=
  fun id hr => by rw [h' id (h.intact.reaches hr), h id hr]

/-! ## Changing values -/

theorem outline?_mapSlot {f : Slot → Slot} (hf : ∀ slot, (f slot).declaration = slot.declaration)
    (s : Store) (id other : NodeId) : (s.mapSlot id f).outline? other = s.outline? other := by
  unfold outline?
  rw [node?_mapSlot]
  split
  · next e =>
    rw [e]
    cases s.node? id with
    | none => rfl
    | some node =>
      cases node with
      | scalar slot => simp [Node.outline, Slot.reset, hf]
      | _ => rfl
  · rfl

theorem outline?_mapSlots {f : Slot → Slot} (hf : ∀ slot, (f slot).declaration = slot.declaration)
    (s : Store) (ids : List NodeId) (other : NodeId) :
    (s.mapSlots ids f).outline? other = s.outline? other := by
  unfold mapSlots
  induction ids generalizing s with
  | nil => rfl
  | cons id rest ih => rw [List.foldl_cons, ih, outline?_mapSlot hf]

theorem outline?_assign (s : Store) (id : NodeId) (value : Value) (other : NodeId) :
    (s.assign id value).outline? other = s.outline? other :=
  outline?_mapSlot (fun slot => Slot.declaration_set slot value) s id other

theorem outline?_set {path : Path} {value : Value} (h : s.set id path value = .ok s')
    (other : NodeId) : s'.outline? other = s.outline? other := by
  unfold set at h
  cases hf : s.find id path with
  | error e => simp [hf, bind, Except.bind] at h
  | ok target =>
    simp only [hf, bind, Except.bind] at h
    split at h
    · cases Except.ok.inj h
      exact outline?_assign s target value other
    · simp at h

theorem outline?_reset? (h : s.reset? id = some s') (other : NodeId) :
    s'.outline? other = s.outline? other := by
  obtain ⟨t, -, rfl⟩ := Option.map_eq_some_iff.1 h
  exact outline?_mapSlots Slot.declaration_reset s t.scalars other

theorem outline?_disconnect? (h : s.disconnect? id = some s') (other : NodeId) :
    s'.outline? other = s.outline? other := by
  obtain ⟨t, -, rfl⟩ := Option.map_eq_some_iff.1 h
  exact outline?_mapSlots Slot.declaration_disconnect s t.scalars other

/-! ## Removing nodes -/

theorem isOwned_of_owns {parent child : NodeId} (h : s.Owns parent child) :
    s.isOwned child = true := by
  obtain ⟨node, hn, hm⟩ := h
  unfold node? at hn
  have hcell : s.cells[parent.index]? = some (some node) := Option.join_eq_some_iff.1 hn
  unfold isOwned
  rw [List.any_eq_true]
  refine ⟨some node, ?_, by simpa using hm⟩
  rw [Array.mem_toList_iff]
  exact Array.mem_of_getElem? hcell

theorem node?_dropOrphans (s : Store) (held : List NodeId) (id : NodeId) :
    (s.dropOrphans held).node? id =
      if held.contains id || s.isOwned id then s.node? id else none := by
  unfold dropOrphans node?
  rw [Array.getElem?_mapIdx]
  cases s.cells[id.index]? with
  | none => simp
  | some cell => simp only [Option.map_some, Option.join_some]

theorem kept_dropOrphans {held : List NodeId} (h : root ∈ held) :
    Kept root s (s.dropOrphans held) := by
  intro id hr
  -- The root is held, and whatever else it reaches has an owner.
  have hkept : (held.contains id || s.isOwned id) = true := by
    rcases Relation.ReflTransGen.cases_tail hr with rfl | ⟨parent, -, ho⟩
    · simp [h]
    · rw [isOwned_of_owns ho, Bool.or_true]
  rw [node?_dropOrphans, if_pos hkept]

/-- What is held stays, with all that it owns, directly or not. -/
theorem kept_sweepWithin {held : List NodeId} (h : root ∈ held) (rounds : Nat) (s : Store) :
    Kept root s (s.sweepWithin held rounds) := by
  induction rounds generalizing s with
  | zero => exact fun id _ => rfl
  | succ rounds ih =>
    rw [sweepWithin]
    split
    · exact fun id _ => rfl
    · exact (kept_dropOrphans h).trans (ih _)

/-! ## Runs -/

theorem Step.intact (h : Step root s s') : Intact root s s' := by
  cases h with
  | set h => exact fun id _ => outline?_set h id
  | assign id value => exact fun other _ => outline?_assign s id value other
  | reset h => exact fun id _ => outline?_reset? h id
  | disconnect h => exact fun id _ => outline?_disconnect? h id
  | sweep h => exact (kept_sweepWithin h s.size s).intact

theorem intact_of_run (h : Run root s s') : Intact root s s' := by
  induction h with
  | refl => exact fun id _ => rfl
  | tail _ hstep ih => exact ih.trans hstep.intact

/-! ## Closed stores -/

theorem closed_of_outline? (h : ∀ id, s'.outline? id = s.outline? id) (hs : s.Closed) :
    s'.Closed := by
  intro id node hn child hm
  have ho : s'.Owns id child := ⟨node, hn, hm⟩
  rw [owns_iff_outline?, h id, ← owns_iff_outline?] at ho
  obtain ⟨node', hn', hm'⟩ := ho
  rw [has_iff_outline?, h child, ← has_iff_outline?]
  exact hs id node' hn' child hm'

theorem Closed.dropOrphans (hs : s.Closed) (held : List NodeId) : (s.dropOrphans held).Closed := by
  intro id node hn child hm
  rw [node?_dropOrphans] at hn
  split at hn
  · have hkept : (held.contains child || s.isOwned child) = true := by
      rw [isOwned_of_owns ⟨node, hn, hm⟩, Bool.or_true]
    unfold Has
    rw [node?_dropOrphans, if_pos hkept]
    exact hs id node hn child hm
  · simp at hn

theorem Closed.sweepWithin (held : List NodeId) (rounds : Nat) (hs : s.Closed) :
    (s.sweepWithin held rounds).Closed := by
  induction rounds generalizing s with
  | zero => exact hs
  | succ rounds ih =>
    rw [Store.sweepWithin]
    split
    · exact hs
    · exact ih (hs.dropOrphans held)

theorem Step.closed (h : Step root s s') (hs : s.Closed) : s'.Closed := by
  cases h with
  | set h => exact closed_of_outline? (outline?_set h) hs
  | assign id value => exact closed_of_outline? (outline?_assign s id value) hs
  | reset h => exact closed_of_outline? (outline?_reset? h) hs
  | disconnect h => exact closed_of_outline? (outline?_disconnect? h) hs
  | sweep h => exact hs.sweepWithin _ _

theorem closed_of_run (h : Run root s s') (hs : s.Closed) : s'.Closed := by
  induction h with
  | refl => exact hs
  | tail _ hstep ih => exact hstep.closed ih

/-! ## Reading what is intact -/

/-- What is no scalar is the very same node. -/
theorem Intact.node? {node : Node} (h : Intact root s s') (hr : s.Reaches root id)
    (hn : s.node? id = some node) (hscalar : ∀ slot, node ≠ .scalar slot) :
    s'.node? id = some node := by
  have ho := h id hr
  unfold outline? at ho
  rw [hn, Option.map_some] at ho
  obtain ⟨node', hn', he⟩ := Option.map_eq_some_iff.1 ho
  rw [hn']
  cases node with
  | scalar slot => exact absurd rfl (hscalar slot)
  | _ => cases node' <;> simp_all [Node.outline]

theorem Intact.slot? {slot : Slot} (h : Intact root s s') (hr : s.Reaches root id)
    (hn : s.node? id = some (.scalar slot)) :
    ∃ slot', s'.slot? id = some slot' ∧ slot'.declaration = slot.declaration := by
  have ho := h id hr
  unfold outline? at ho
  rw [hn, Option.map_some] at ho
  obtain ⟨node', hn', he⟩ := Option.map_eq_some_iff.1 ho
  unfold Store.slot?
  rw [hn']
  cases node' with
  | scalar slot' =>
    have hreset : slot'.reset = slot.reset := Node.scalar.inj he
    exact ⟨slot', rfl, by rw [← Slot.declaration_reset slot', hreset, Slot.declaration_reset]⟩
  | _ => simp [Node.outline] at he

theorem Intact.has (h : Intact root s s') (hr : s.Reaches root id) (hid : s.Has id) :
    s'.Has id := by
  rw [has_iff_outline?, h id hr, ← has_iff_outline?]
  exact hid

theorem Intact.child? (h : Intact root s s') (hr : s.Reaches root id) (segment : String) :
    s'.child? id segment = s.child? id segment := by
  have ho := h id hr
  unfold outline? at ho
  unfold Store.child?
  cases e : s.node? id with
  | none =>
    rw [e, Option.map_none, Option.map_eq_none_iff] at ho
    rw [ho]
  | some node =>
    rw [e, Option.map_some] at ho
    obtain ⟨node', e', he⟩ := Option.map_eq_some_iff.1 ho
    rw [e']
    cases node' <;> cases node <;> simp_all [Node.outline]

theorem Intact.walk_ok {path : Path} {segments : List String} {target : NodeId}
    (h : Intact root s s') (hr : s.Reaches root id) (hw : s.walk path id segments = .ok target) :
    s'.walk path id segments = .ok target ∧ s.Reaches root target := by
  induction segments generalizing id with
  | nil =>
    cases Except.ok.inj hw
    exact ⟨rfl, hr⟩
  | cons segment rest ih =>
    rw [walk] at hw ⊢
    rw [h.child? hr]
    cases e : s.child? id segment with
    | none => simp [e] at hw
    | some child =>
      simp only [e] at hw
      exact ih (hr.tail (owns_of_child? e)) hw

end Store

end StateTree
