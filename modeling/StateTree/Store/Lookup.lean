import StateTree.Store

/-
  Finding nodes by path. A segment names a field of a composite or a position of a list; scalars
  and validations have nothing below them. A failure reports the whole path and the first segment
  at which there is no node.
-/

namespace StateTree.Store

/-- The node that one segment leads to. -/
def child? (s : Store) (id : NodeId) (segment : String) : Option NodeId :=
  match s.node? id with
  | some (.composite fields) => fields.get? segment
  | some (.list items) => (Path.index? segment).bind fun i => items[i]?
  | _ => none

/-- A reading of positions that stops at some bound leads to the same items, as long as the list
is not longer than that. -/
theorem child?_of_list {s : Store} {id : NodeId} {items : List NodeId} {bound : Nat}
    (hn : s.node? id = some (.list items)) (h : items.length ≤ bound) (segment : String) :
    s.child? id segment = ((Path.index? segment).filter (· < bound)).bind fun i => items[i]? := by
  rw [child?, hn]
  cases Path.index? segment with
  | none => rfl
  | some i =>
    by_cases hi : i < bound
    · simp [Option.filter, hi]
    · simp [Option.filter, hi, Nat.le_trans h (Nat.le_of_not_lt hi)]

/-- Follows segments from a node. `path` is the whole path, for the report of a failure. -/
def walk (s : Store) (path : Path) (id : NodeId) : List String → Except Error NodeId
  | [] => .ok id
  | segment :: rest =>
    match s.child? id segment with
    | some child => s.walk path child rest
    | none => .error (.unresolvedPath path segment)

def find (s : Store) (id : NodeId) (path : Path) : Except Error NodeId :=
  s.walk path id (Path.segments path)

/-- Follows a path into fields that need not be those of a composite yet. A path without segments
names no field, but what the fields are going to be part of. -/
def resolve (s : Store) (fields : Fields NodeId) (path : Path) : Except Error (Option NodeId) :=
  match Path.segments path with
  | [] => .ok none
  | segment :: rest =>
    match fields.get? segment with
    | some child => (s.walk path child rest).map some
    | none => .error (.unresolvedPath path segment)

/-! ## The parts of one node -/

def slot? (s : Store) (id : NodeId) : Option Slot :=
  match s.node? id with
  | some (.scalar slot) => some slot
  | _ => none

def items? (s : Store) (id : NodeId) : Option (List NodeId) :=
  match s.node? id with
  | some (.list items) => some items
  | _ => none

def fields? (s : Store) (id : NodeId) : Option (Fields NodeId) :=
  match s.node? id with
  | some (.composite fields) => some fields
  | _ => none

/-- The node that a validation refers to, as long as it is not gone. -/
def target? (s : Store) (id : NodeId) : Option NodeId :=
  match s.node? id with
  | some (.validation target) => if (s.node? target).isSome then some target else none
  | _ => none

def isValidation (s : Store) (id : NodeId) : Bool :=
  match s.node? id with
  | some (.validation _) => true
  | _ => false

end StateTree.Store
