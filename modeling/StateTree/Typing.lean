import StateTree.Inference
import StateTree.Schema.Text

/-
  The type that an entry declares. An array is typed by its items, a record by its fields; the
  rest is inferred or declared. A node has no declared type, and a union of nothing is refused. The
  types with parts are declared by entries in this way.
-/

namespace StateTree.Inference

/-- The array type that items of these types have. -/
def sequenceType (items : List Schema) : Except Error Schema := do
  return (Schema.arrayOf (← Schema.unify items)).asRequired

mutual

def typeOfValue (inference : Inference) : Value → Except Error Schema
  | .array items => do sequenceType (← typesOfItems inference items)
  | .object fields =>
    match inference.ofValue? (.object fields) with
    | some d => .ok d.schema
    | none => do return .exactShapeOf (← typesOfFields inference fields)
  | .instanceOf className fields =>
    match inference.ofValue? (.instanceOf className fields) with
    | some d => .ok d.schema
    | none => do return .exactShapeOf (← typesOfFields inference fields)
  | v =>
    match inference.ofValue? v with
    | some d => .ok d.schema
    | none => .ok (.exactShapeOf [])

def typesOfItems (inference : Inference) : List Value → Except Error (List Schema)
  | [] => .ok []
  | v :: rest => do
    let t ← typeOfValue inference v
    return t :: (← typesOfItems inference rest)

def typesOfFields (inference : Inference) :
    List (String × Value) → Except Error (List (String × Schema))
  | [] => .ok []
  | (name, v) :: rest => do
    let t ← typeOfValue inference v
    return (name, t) :: (← typesOfFields inference rest)

end

mutual

def typeOf (inference : Inference) : Config → Except Error Schema
  | .node _ => .error .nodeInType
  | .pending template => .ok template.schema
  | .scalar d => .ok d.schema
  | .shape inner required => do
    let t ← typeOf inference inner
    return if required && t.supportsRequired then t.asRequired else t
  | .validates _ => .ok .marker
  | .sequence items => do sequenceType (← typesOf inference items)
  | .record fields =>
    match inference.ofConfig? (.record fields) with
    | some d => .ok d.schema
    | none => do return .exactShapeOf (← fieldTypesOf inference fields)
  | .literal v => typeOfValue inference v

def typesOf (inference : Inference) : List Config → Except Error (List Schema)
  | [] => .ok []
  | c :: rest => do
    let t ← typeOf inference c
    return t :: (← typesOf inference rest)

def fieldTypesOf (inference : Inference) :
    List (String × Config) → Except Error (List (String × Schema))
  | [] => .ok []
  | (name, c) :: rest => do
    let t ← typeOf inference c
    return (name, t) :: (← fieldTypesOf inference rest)

end

/-! ## Declarations of types with parts -/

/-- An array whose items are of the type of an entry. -/
def arrayOf (inference : Inference) (c : Config) : Except Error Declaration := do
  return .ofSchema (.arrayOf (← inference.typeOf c))

/-- A map from any keys to values of the type of an entry. -/
def objectOf (inference : Inference) (c : Config) : Except Error Declaration := do
  return .ofSchema (.objectOf (← inference.typeOf c))

/-- A value of the type of any of the entries. -/
def oneOf (inference : Inference) (cs : List Config) : Except Error Declaration := do
  return .ofSchema (← Schema.oneOf? (← inference.typesOf cs))

/-- The field types of an entry that is a record or has a type with fields. -/
def recordFields (inference : Inference) (c : Config) : Except Error (Fields Schema) := do
  let t ← inference.typeOf c
  match t.kind with
  | .shapeOf fields => return fields
  | .exactShapeOf fields => return fields
  | .primitive .object => if c.isEmptyRecord then return [] else .error (.notARecord t.text)
  | _ => .error (.notARecord t.text)

/-- A record with at least the fields of an entry. -/
def shapeOf (inference : Inference) (c : Config) : Except Error Declaration := do
  return .ofSchema (.shapeOf (← inference.recordFields c))

/-- A record with exactly the fields of an entry. -/
def exactShapeOf (inference : Inference) (c : Config) : Except Error Declaration := do
  return .ofSchema (.exactShapeOf (← inference.recordFields c))

end StateTree.Inference
