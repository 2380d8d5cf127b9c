import StateTree.Declaration

/-
  Nodes of a state tree. A scalar holds a value, a list and a composite own the nodes below them,
  and a validation only refers to the node that it validates.
-/

namespace StateTree

/-- The identity of a node. -/
structure NodeId where
  index : Nat
deriving DecidableEq

/-- A scalar: how it was declared, and the value it holds now. -/
structure Slot where
  declaration : Declaration
  value : Value

namespace Slot

/-- The default of a declaration, null if it has none. -/
def initialValue (d : Declaration) : Value := d.default?.getD .null

def ofDeclaration (d : Declaration) : Slot := ⟨d, initialValue d⟩

def set (slot : Slot) (value : Value) : Slot := { slot with value := value }

def reset (slot : Slot) : Slot := ofDeclaration slot.declaration

/-- Resets the slot if it is declared to lose its value on disconnecting. -/
def disconnect (slot : Slot) : Slot :=
  if slot.declaration.resetOnDisconnect then slot.reset else slot

@[simp] theorem declaration_set (slot : Slot) (value : Value) :
    (slot.set value).declaration = slot.declaration := rfl

@[simp] theorem declaration_reset (slot : Slot) : slot.reset.declaration = slot.declaration := rfl

@[simp] theorem declaration_disconnect (slot : Slot) :
    slot.disconnect.declaration = slot.declaration := by
  unfold disconnect
  split <;> rfl

end Slot

inductive Node
  | scalar (slot : Slot)
  | list (items : List NodeId)
  | composite (fields : Fields NodeId)
  | validation (target : NodeId)

namespace Node

def kindName : Node → String
  | .scalar _ => "scalar"
  | .list _ => "list"
  | .composite _ => "composite"
  | .validation _ => "validation"

/-- The nodes that a node owns. -/
def children : Node → List NodeId
  | .scalar _ => []
  | .list items => items
  | .composite fields => fields.map (·.2)
  | .validation _ => []

end Node

end StateTree
