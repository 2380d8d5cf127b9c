import StateTree.Store

/-
  Which nodes last. A node stays as long as it is held from outside or another node owns it. A
  validation owns nothing, so what it validates may go. Nodes that own each other in a ring keep
  each other.
-/

namespace StateTree.Store

/-- Whether some node owns this one. -/
def isOwned (s : Store) (id : NodeId) : Bool :=
  s.cells.toList.any fun
    | some node => node.children.contains id
    | none => false

/-- Removes the nodes that are neither held nor owned. What they owned may now be without owner. -/
def dropOrphans (s : Store) (held : List NodeId) : Store :=
  ⟨s.cells.mapIdx fun i cell => if held.contains ⟨i⟩ || s.isOwned ⟨i⟩ then cell else none⟩

def count (s : Store) : Nat := s.cells.toList.countP Option.isSome

def sweepWithin (held : List NodeId) (rounds : Nat) (s : Store) : Store :=
  match rounds with
  | 0 => s
  | rounds + 1 =>
    let next := s.dropOrphans held
    if next.count = s.count then s else sweepWithin held rounds next

/-- Removes nodes until all that are left are held or owned. Each round but the last removes a
node. -/
def sweep (s : Store) (held : List NodeId) : Store := sweepWithin held s.size s

end StateTree.Store
