import StateTree.Node

/-
  Configuration trees. An entry is a literal value, a declaration, a nested shape, a reference to
  a node that it validates, a node that is built already, or a sequence or record of entries.
-/

namespace StateTree

inductive Config
  | node (id : NodeId)
  /-- A required declaration that still waits for its default. -/
  | pending (template : Declaration)
  | scalar (d : Declaration)
  /-- An entry whose type counts, perhaps made required. -/
  | shape (inner : Config) (required : Bool)
  /-- As a field of a record: a validation of the node at this path of the record. -/
  | validates (path : Path)
  | sequence (items : List Config)
  | record (fields : List (String × Config))
  | literal (value : Value)

namespace Config

mutual

/-- The value that an entry spells if it consists of literals only. -/
def toLiteral? : Config → Option Value
  | .literal v => some v
  | .sequence items => (literalItems? items).map .array
  | .record fields => (literalFields? fields).map .object
  | .node _ | .pending _ | .scalar _ | .shape _ _ | .validates _ => none

def literalItems? : List Config → Option (List Value)
  | [] => some []
  | c :: rest =>
    match toLiteral? c, literalItems? rest with
    | some v, some vs => some (v :: vs)
    | _, _ => none

def literalFields? : List (String × Config) → Option (List (String × Value))
  | [] => some []
  | (name, c) :: rest =>
    match toLiteral? c, literalFields? rest with
    | some v, some vs => some ((name, v) :: vs)
    | _, _ => none

end

/-- Whether an entry is a sequence, be it a literal or not. -/
def isSequence : Config → Bool
  | .sequence _ => true
  | .literal (.array _) => true
  | _ => false

/-- Whether an entry is a record without fields, be it a literal or not. -/
def isEmptyRecord : Config → Bool
  | .record fields => fields.isEmpty
  | .literal v => v.isEmptyObject
  | _ => false

/-- A declaration as an entry. One that is required and has no default is pending. -/
def ofDeclaration (d : Declaration) : Config := if d.isUsable then .scalar d else .pending d

def ofRequired : Required → Config
  | .ready d => ofDeclaration d
  | .pending template => .pending template

end Config

end StateTree
