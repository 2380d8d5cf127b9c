import StateTree.Settings
import StateTree.Store.Lookup

/-
  Building the tree of nodes that a configuration describes. What is inferred becomes a scalar;
  the rest is taken apart, a sequence into a list and a record into a composite. The data fields
  of a record are built first; then the paths of its validations are followed among them, and only
  then are the validations added. A failure leaves no store, so nothing is built by halves.
-/

namespace StateTree.Compiler

/-! ## Literals -/

/-- What becomes of a literal if it is not taken apart. -/
def scalarOfValue? (c : Compiler) (v : Value) : Option Declaration :=
  match c.settings.containers, v with
  | .structural, .array _ => none
  | .structural, .object [] => none
  | _, v => c.inference.ofValue? v

mutual

/-- Builds the nodes of a literal. -/
def place (c : Compiler) : Value → Store → NodeId × Store
  | .array items, s =>
    match c.scalarOfValue? (.array items) with
    | some d => s.scalar d
    | none =>
      let (ids, s) := placeItems c items s
      s.list ids
  | .object fields, s =>
    match c.scalarOfValue? (.object fields) with
    | some d => s.scalar d
    | none =>
      let (ids, s) := placeFields c fields s
      s.composite ids
  | .instanceOf className fields, s =>
    match c.scalarOfValue? (.instanceOf className fields) with
    | some d => s.scalar d
    | none =>
      let (ids, s) := placeFields c fields s
      s.composite ids
  | v, s =>
    match c.scalarOfValue? v with
    | some d => s.scalar d
    | none => s.scalar ((Declaration.primitive .any).defaultsTo v)

def placeItems (c : Compiler) : List Value → Store → List NodeId × Store
  | [], s => ([], s)
  | v :: rest, s =>
    let (id, s) := place c v s
    let (ids, s) := placeItems c rest s
    (id :: ids, s)

def placeFields (c : Compiler) : List (String × Value) → Store → List (String × NodeId) × Store
  | [], s => ([], s)
  | (name, v) :: rest, s =>
    let (id, s) := place c v s
    let (ids, s) := placeFields c rest s
    ((name, id) :: ids, s)

end

/-! ## Entries -/

/-- What becomes of an entry if it is not taken apart. -/
def scalarOf? (c : Compiler) (config : Config) : Option Declaration :=
  if c.settings.containers = .structural ∧ (config.isSequence || config.isEmptyRecord) then none
  else c.inference.ofConfig? config

/-- The validations among the fields of a record, with their paths. -/
def validations (fields : List (String × Config)) : List (String × Path) :=
  fields.filterMap fun
    | (name, .validates path) => some (name, path)
    | _ => none

/-- Follows the path of each validation among the data fields. -/
def resolveAll (s : Store) (data : Fields NodeId) (validations : List (String × Path)) :
    Except Error (List (String × Option NodeId)) :=
  validations.mapM fun v => (s.resolve data v.2).map (v.1, ·)

mutual

/-- Builds the nodes of an entry that stands at a path. -/
def build (c : Compiler) : Config → Path → Store → Except Error (NodeId × Store)
  | .node id, _, s => .ok (id, s)
  | .pending _, path, _ => .error (.missingDefault path)
  | .scalar d, path, s => if d.isUsable then .ok (s.scalar d) else .error (.missingDefault path)
  | .shape inner _, path, s => build c inner path s
  | .validates target, _, _ => .error (.detachedValidation target)
  | .sequence items, path, s =>
    match c.scalarOf? (.sequence items) with
    | some d => .ok (s.scalar d)
    | none => do
      let (ids, s) ← buildItems c items path 0 s
      return s.list ids
  | .record fields, path, s =>
    match c.scalarOf? (.record fields) with
    | some d => .ok (s.scalar d)
    | none => do
      let (data, s) ← buildFields c fields path s
      let targets ← resolveAll s data (validations fields)
      return s.record data targets
  | .literal v, _, s => .ok (place c v s)

/-- Builds the items of a sequence from a position on. -/
def buildItems (c : Compiler) :
    List Config → Path → Nat → Store → Except Error (List NodeId × Store)
  | [], _, _, s => .ok ([], s)
  | item :: rest, path, index, s => do
    let (id, s) ← build c item (Path.join path (toString index)) s
    let (ids, s) ← buildItems c rest path (index + 1) s
    return (id :: ids, s)

/-- Builds the data fields of a record, leaving out its validations. -/
def buildFields (c : Compiler) :
    List (String × Config) → Path → Store → Except Error (List (String × NodeId) × Store)
  | [], _, s => .ok ([], s)
  | (_, .validates _) :: rest, path, s => buildFields c rest path s
  | (name, child) :: rest, path, s => do
    let (id, s) ← build c child (Path.join path name) s
    let (ids, s) ← buildFields c rest path s
    return ((name, id) :: ids, s)

end

/-- Builds the tree of a configuration. -/
def compile (c : Compiler) (config : Config) (s : Store) : Except Error (NodeId × Store) :=
  c.build config Path.root s

end StateTree.Compiler
