import StateTree.Store.Lookup

/-
  The tree below a node, as far as ownership goes: a validation is a leaf. A node that two others
  own stands in the tree twice. A node that owns itself, directly or not, has no tree.
-/

namespace StateTree

inductive Tree
  | scalar (id : NodeId) (slot : Slot)
  | list (id : NodeId) (items : List Tree)
  | composite (id : NodeId) (fields : List (String × Tree))
  | validation (id : NodeId) (target : NodeId)

namespace Tree

/-- The node at the top. -/
def id : Tree → NodeId
  | .scalar id _ => id
  | .list id _ => id
  | .composite id _ => id
  | .validation id _ => id

def isValidation : Tree → Bool
  | .validation _ _ => true
  | _ => false

/-! ## Data -/

mutual

/-- The data of a tree. Validations carry none: they are left out of their composite and count as
null elsewhere. -/
def value : Tree → Value
  | .scalar _ slot => slot.value
  | .list _ items => .array (values items)
  | .composite _ fields => .object (fieldValues fields)
  | .validation _ _ => .null

def values : List Tree → List Value
  | [] => []
  | t :: rest => value t :: values rest

def fieldValues : List (String × Tree) → List (String × Value)
  | [] => []
  | (name, t) :: rest =>
    if t.isValidation then fieldValues rest else (name, value t) :: fieldValues rest

end

/-! ## Scalars -/

mutual

/-- The scalars of a tree from left to right. -/
def scalars : Tree → List NodeId
  | .scalar id _ => [id]
  | .list _ items => scalarsOfItems items
  | .composite _ fields => scalarsOfFields fields
  | .validation _ _ => []

def scalarsOfItems : List Tree → List NodeId
  | [] => []
  | t :: rest => scalars t ++ scalarsOfItems rest

def scalarsOfFields : List (String × Tree) → List NodeId
  | [] => []
  | (_, t) :: rest => scalars t ++ scalarsOfFields rest

end

/-! ## Places -/

mutual

/-- The segments that lead to the first place of a node, reading each branch from the top before
the next one. -/
def place? (target : NodeId) : Tree → Option (List String)
  | .scalar id _ => if id = target then some [] else none
  | .list id items => if id = target then some [] else placeInItems? target 0 items
  | .composite id fields => if id = target then some [] else placeInFields? target fields
  | .validation id _ => if id = target then some [] else none

def placeInItems? (target : NodeId) (index : Nat) : List Tree → Option (List String)
  | [] => none
  | t :: rest =>
    match place? target t with
    | some segments => some (toString index :: segments)
    | none => placeInItems? target (index + 1) rest

def placeInFields? (target : NodeId) : List (String × Tree) → Option (List String)
  | [] => none
  | (name, t) :: rest =>
    match place? target t with
    | some segments => some (name :: segments)
    | none => placeInFields? target rest

end

end Tree

namespace Store

/-- The tree below a node, if it has at most `depth` levels. -/
def treeWithin? (s : Store) (depth : Nat) (id : NodeId) : Option Tree :=
  match depth with
  | 0 => none
  | depth + 1 =>
    match s.node? id with
    | none => none
    | some (.scalar slot) => some (.scalar id slot)
    | some (.list items) => (items.mapM (s.treeWithin? depth)).map (.list id)
    | some (.composite fields) =>
      (fields.mapM fun field => (s.treeWithin? depth field.2).map (field.1, ·)).map (.composite id)
    | some (.validation target) => some (.validation id target)

/-- The tree below a node. A branch without repetition has no more levels than there are nodes. -/
def tree? (s : Store) (id : NodeId) : Option Tree := s.treeWithin? s.size id

/-- A snapshot of the data below a node. -/
def value? (s : Store) (id : NodeId) : Option Value := (s.tree? id).map Tree.value

end Store

end StateTree
