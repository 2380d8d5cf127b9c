import StateTree.Proofs.Store.Run

/-
  What sweeping leaves. A round removes the nodes that are neither held nor owned, and if it removes
  none, no later one would. Main statement: after a sweep, a node that was there before is there
  exactly if it is held or owned by a node that is there (`has_sweep_iff`).
-/

namespace StateTree

section Thinned

variable {α : Type} {cells cells' : List (Option α)}

/-- Some cells of a list are emptied. -/
abbrev Thinned (cells cells' : List (Option α)) : Prop :=
  List.Forall₂ (fun cell cell' => cell' = cell ∨ cell' = none) cells cells'

theorem thinned_mapIdx {f : Nat → Option α → Option α}
    (h : ∀ i cell, f i cell = cell ∨ f i cell = none) (cells : List (Option α)) :
    Thinned cells (cells.mapIdx f) := by
  induction cells generalizing f with
  | nil => exact .nil
  | cons cell rest ih =>
    rw [List.mapIdx_cons]
    exact .cons (h 0 cell) (ih fun i => h (i + 1))

theorem Thinned.countP_le (h : Thinned cells cells') :
    cells'.countP Option.isSome ≤ cells.countP Option.isSome := by
  induction h with
  | nil => exact Nat.le_refl _
  | cons hone _ ih =>
    rw [List.countP_cons, List.countP_cons]
    rcases hone with rfl | rfl
    · omega
    · simp only [Option.isSome_none, Bool.false_eq_true, if_false]
      omega

/-- If as many cells are full as before, none was emptied. -/
theorem Thinned.eq_of_countP_eq (h : Thinned cells cells')
    (hc : cells'.countP Option.isSome = cells.countP Option.isSome) : cells' = cells := by
  induction h with
  | nil => rfl
  | @cons cell cell' rest rest' hone hrest ih =>
    have hle : rest'.countP Option.isSome ≤ rest.countP Option.isSome := Thinned.countP_le hrest
    rw [List.countP_cons, List.countP_cons] at hc
    rcases hone with rfl | rfl
    · rw [ih (by omega)]
    · cases cell with
      | none => rw [ih (by omega)]
      | some node =>
        simp only [Option.isSome_none, Bool.false_eq_true, if_false, Option.isSome_some,
          if_true] at hc
        omega

end Thinned

namespace Store

variable {s : Store} {held : List NodeId} {id : NodeId}

/-! ## Rounds -/

theorem thinned_dropOrphans (s : Store) (held : List NodeId) :
    Thinned s.cells.toList (s.dropOrphans held).cells.toList := by
  unfold dropOrphans
  rw [Array.toList_mapIdx]
  apply thinned_mapIdx
  intro i cell
  split
  · exact Or.inl rfl
  · exact Or.inr rfl

theorem count_dropOrphans_le (s : Store) (held : List NodeId) :
    (s.dropOrphans held).count ≤ s.count :=
  (thinned_dropOrphans s held).countP_le

theorem dropOrphans_eq_self (h : (s.dropOrphans held).count = s.count) :
    s.dropOrphans held = s := by
  have hcells := Array.toList_inj.1 ((thinned_dropOrphans s held).eq_of_countP_eq h)
  cases s
  exact congrArg Store.mk hcells

/-- After enough rounds, another one would not remove anything. -/
theorem dropOrphans_sweepWithin {rounds : Nat} (h : s.count ≤ rounds) :
    (s.sweepWithin held rounds).dropOrphans held = s.sweepWithin held rounds := by
  induction rounds generalizing s with
  | zero =>
    rw [sweepWithin]
    have hle := count_dropOrphans_le s held
    exact dropOrphans_eq_self (by omega)
  | succ rounds ih =>
    rw [sweepWithin]
    split
    · next hcount => exact dropOrphans_eq_self hcount
    · next hcount =>
      have hle := count_dropOrphans_le s held
      exact ih (by omega)

theorem dropOrphans_sweep (s : Store) (held : List NodeId) :
    (s.sweep held).dropOrphans held = s.sweep held :=
  dropOrphans_sweepWithin List.countP_le_length

/-! ## What is left -/

theorem isOwned_iff : s.isOwned id = true ↔ ∃ owner, s.Owns owner id := by
  constructor
  · intro h
    obtain ⟨cell, hm, hcell⟩ := List.any_eq_true.1 h
    cases cell with
    | none => simp at hcell
    | some node =>
      obtain ⟨i, hi⟩ := List.mem_iff_getElem?.1 hm
      rw [Array.getElem?_toList] at hi
      exact ⟨⟨i⟩, node, by rw [node?, hi]; rfl, by simpa using hcell⟩
  · rintro ⟨owner, ho⟩
    exact isOwned_of_owns ho

/-- The node is held from outside, or owned by a node that is there. -/
def Lasts (s : Store) (held : List NodeId) (id : NodeId) : Prop :=
  id ∈ held ∨ ∃ owner, s.Owns owner id

theorem lasts_of_has_sweep (h : (s.sweep held).Has id) : (s.sweep held).Lasts held id := by
  unfold Has at h
  rw [← dropOrphans_sweep, node?_dropOrphans] at h
  split at h
  · next hkept =>
    rw [Bool.or_eq_true, List.contains_iff_mem, isOwned_iff] at hkept
    exact hkept
  · simp at h

theorem kept_sweep (h : id ∈ held) : Kept id s (s.sweep held) := kept_sweepWithin h s.size s

/-- What is held or owned is there, and nothing else of what was there before. -/
theorem has_sweep_iff (hs : s.Closed) (hid : s.Has id) (held : List NodeId) :
    (s.sweep held).Has id ↔ (s.sweep held).Lasts held id := by
  constructor
  · exact lasts_of_has_sweep
  · rintro (hm | ⟨owner, node, hn, hm⟩)
    · unfold Has
      rwa [kept_sweep hm id .refl]
    · exact hs.sweepWithin held s.size owner node hn id hm

/-! ## What validations refer to -/

section Target

variable {v target : NodeId}

theorem target?_eq_some_iff (hn : s.node? v = some (.validation target)) :
    s.target? v = some target ↔ s.Has target := by
  simp only [target?, hn, Has]
  split <;> simp_all

theorem target?_eq_none_iff (hn : s.node? v = some (.validation target)) :
    s.target? v = none ↔ ¬ s.Has target := by
  simp only [target?, hn, Has]
  split <;> simp_all

end Target

end Store

end StateTree
