import StateTree.Store.Tree

/-
  Changing the values of scalars. Nothing here changes the structure of a tree, and none of it
  changes how a scalar was declared.
-/

namespace StateTree.Store

/-- Changes the slot of a scalar. Other nodes have no slot and stay as they are. -/
def mapSlot (s : Store) (id : NodeId) (f : Slot → Slot) : Store :=
  match s.node? id with
  | some (.scalar slot) => s.put id (.scalar (f slot))
  | _ => s

/-- Changes the slots of several scalars, one after the other. -/
def mapSlots (s : Store) (ids : List NodeId) (f : Slot → Slot) : Store :=
  ids.foldl (fun s id => s.mapSlot id f) s

def assign (s : Store) (id : NodeId) (value : Value) : Store := s.mapSlot id (·.set value)

/-- Sets the scalar at a path. -/
def set (s : Store) (id : NodeId) (path : Path) (value : Value) : Except Error Store := do
  let target ← s.find id path
  match s.slot? target with
  | some _ => return s.assign target value
  | none => .error (.notAScalar path)

/-- Gives every scalar below a node its default again. -/
def reset? (s : Store) (id : NodeId) : Option Store :=
  (s.tree? id).map fun t => s.mapSlots t.scalars Slot.reset

/-- Resets the scalars below a node that lose their value on disconnecting. -/
def disconnect? (s : Store) (id : NodeId) : Option Store :=
  (s.tree? id).map fun t => s.mapSlots t.scalars Slot.disconnect

theorem node?_mapSlot (s : Store) (id : NodeId) (f : Slot → Slot) (other : NodeId) :
    (s.mapSlot id f).node? other =
      if other = id then
        (s.node? id).map fun
          | .scalar slot => .scalar (f slot)
          | node => node
      else s.node? other := by
  unfold mapSlot
  split
  · next slot h =>
    have hlt : id.index < s.size := by
      unfold node? at h
      exact Nat.lt_of_not_le fun k => by simp [Array.getElem?_eq_none k] at h
    rw [node?_put]
    by_cases k : other = id <;> simp [k, hlt, h]
  · next h =>
    by_cases k : other = id
    · subst k
      cases e : s.node? other with
      | none => simp
      | some node =>
        cases node with
        | scalar slot => exact absurd e (h slot)
        | _ => simp
    · simp [k]

end StateTree.Store
