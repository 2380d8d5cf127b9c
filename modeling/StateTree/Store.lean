import StateTree.Node

/-
  The store that holds all nodes by identity. An identity is used once: what is built later never
  takes the place of a node that is gone.
-/

namespace StateTree

structure Store where
  /-- The nodes by identity; none where a node is gone. -/
  cells : Array (Option Node)

namespace Store

def empty : Store := ⟨#[]⟩

instance : EmptyCollection Store := ⟨empty⟩

def size (s : Store) : Nat := s.cells.size

def node? (s : Store) (id : NodeId) : Option Node := s.cells[id.index]?.join

/-- The identity that the next new node takes. -/
def next (s : Store) : NodeId := ⟨s.size⟩

def push (s : Store) (node : Node) : Store := ⟨s.cells.push (some node)⟩

/-- Adds a node. -/
def alloc (s : Store) (node : Node) : NodeId × Store := (s.next, s.push node)

/-- Replaces what stands at an identity already used. -/
def put (s : Store) (id : NodeId) (node : Node) : Store :=
  ⟨s.cells.setIfInBounds id.index (some node)⟩

theorem node?_push (s : Store) (node : Node) (id : NodeId) :
    (s.push node).node? id = if id = s.next then some node else s.node? id := by
  obtain ⟨i⟩ := id
  simp only [node?, push, next, size, Array.getElem?_push, NodeId.mk.injEq]
  split <;> rfl

theorem node?_put (s : Store) (id : NodeId) (node : Node) (other : NodeId) :
    (s.put id node).node? other =
      if other = id ∧ id.index < s.size then some node else s.node? other := by
  obtain ⟨i⟩ := id
  obtain ⟨j⟩ := other
  simp only [node?, put, size, Array.getElem?_setIfInBounds, NodeId.mk.injEq]
  by_cases h : j = i
  · subst h
    by_cases k : j < s.cells.size <;> simp [k]
  · simp [h, Ne.symm h]

/-! ## Building nodes -/

def scalar (s : Store) (d : Declaration) : NodeId × Store := s.alloc (.scalar (.ofDeclaration d))

def list (s : Store) (items : List NodeId) : NodeId × Store := s.alloc (.list items)

def composite (s : Store) (fields : Fields NodeId) : NodeId × Store := s.alloc (.composite fields)

def validation (s : Store) (target : NodeId) : NodeId × Store := s.alloc (.validation target)

/-- Writes a field of a composite. Other nodes have no fields and stay as they are. -/
def insertField (s : Store) (id : NodeId) (name : String) (child : NodeId) : Store :=
  match s.node? id with
  | some (.composite fields) => s.put id (.composite (fields.insert name child))
  | _ => s

/-- Adds one validation of a composite as a field of its own. Without a target it validates the
composite. -/
def addValidation (s : Store) (id : NodeId) (name : String) (target : Option NodeId) : Store :=
  let (validation, s) := s.validation (target.getD id)
  s.insertField id name validation

/-- A composite of the given fields, and after them one field for each validation. -/
def record (s : Store) (fields : Fields NodeId) (validations : List (String × Option NodeId)) :
    NodeId × Store :=
  let (id, s) := s.composite fields
  (id, validations.foldl (fun s v => s.addValidation id v.1 v.2) s)

end Store

end StateTree
