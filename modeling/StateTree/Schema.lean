import StateTree.Error

/-
  Types of the values that a node may hold. A schema is a kind, a flag that says whether a value
  is required, and options that narrow the kind. Schemas hold no nodes.
-/

namespace StateTree

/-- The kinds without parts. -/
inductive Primitive
  | any
  | array
  | bool
  | element
  | function
  | node
  | number
  | object
  | string
  | symbol
deriving DecidableEq

namespace Primitive

def name : Primitive → String
  | .any => "any"
  | .array => "array"
  | .bool => "bool"
  | .element => "element"
  | .function => "function"
  | .node => "node"
  | .number => "number"
  | .object => "object"
  | .string => "string"
  | .symbol => "symbol"

def all : List Primitive :=
  [.any, .array, .bool, .element, .function, .node, .number, .object, .string, .symbol]

def ofName? (name : String) : Option Primitive := all.find? (·.name = name)

end Primitive

/-- A test of values that the user supplies. Functions cannot be compared, so every test carries
a tag of its own, and two checks count as equal if they agree in name and tag. -/
structure Check where
  name : String
  tag : Nat
  accepts : Value → Bool

mutual

inductive Kind
  | primitive (p : Primitive)
  | enum (values : List Value)
  | instanceOf (className : String)
  | custom (check : Check)
  | arrayOf (element : Schema)
  | objectOf (value : Schema)
  | oneOf (candidates : List Schema)
  | shapeOf (fields : List (String × Schema))
  | exactShapeOf (fields : List (String × Schema))

structure Schema where
  kind : Kind
  required : Bool
  options : Options

end

namespace Kind

def name : Kind → String
  | .primitive p => p.name
  | .enum _ => "enum"
  | .instanceOf _ => "instanceOf"
  | .custom _ => "custom"
  | .arrayOf _ => "arrayOf"
  | .objectOf _ => "objectOf"
  | .oneOf _ => "oneOf"
  | .shapeOf _ => "shapeOf"
  | .exactShapeOf _ => "exactShapeOf"

/-- Options of a kind besides the description that every kind takes. -/
def ownOptions : Kind → List (String × OptionForm)
  | .primitive .string =>
    [("isEmail", .flag), ("isUrl", .flag), ("isUuid", .flag), ("minLength", .count),
      ("maxLength", .count), ("pattern", .text)]
  | .primitive .number => [("minimum", .number), ("maximum", .number), ("isInteger", .flag)]
  | .primitive .array | .arrayOf _ => [("minItems", .count), ("maxItems", .count)]
  | _ => []

/-- The form that an option of this kind takes, if the kind has the option. -/
def optionForm? (kind : Kind) (option : String) : Option OptionForm :=
  (("description", .text) :: kind.ownOptions).lookup option

end Kind

namespace Schema

/-- The optional schema of a kind, without options. -/
def ofKind (kind : Kind) : Schema := ⟨kind, false, ∅⟩

def primitive (p : Primitive) : Schema := ofKind (.primitive p)

def arrayOf (element : Schema) : Schema := ofKind (.arrayOf element)

def objectOf (value : Schema) : Schema := ofKind (.objectOf value)

def shapeOf (fields : Fields Schema) : Schema := ofKind (.shapeOf fields)

def exactShapeOf (fields : Fields Schema) : Schema := ofKind (.exactShapeOf fields)

/-- What stands for a validation among the field types of a record. It holds no data, so no value
has this type. -/
def marker : Schema := primitive .symbol

def asRequired (t : Schema) : Schema := { t with required := true }

def asOptional (t : Schema) : Schema := { t with required := false }

/-- Custom types are neither required nor optional. -/
def supportsRequired (t : Schema) : Bool :=
  match t.kind with
  | .custom _ => false
  | _ => true

/-! ## Options -/

/-- Whether an option may be given to a schema with this value. -/
def checkOption (t : Schema) (option : String) (value : Value) : Except Error Unit :=
  match t.kind.optionForm? option with
  | none => .error (.unsupportedOption option t.kind.name)
  | some form => if form.accepts value then .ok () else .error (.invalidOptionValue option form)

/-- Adds options. All are checked, in the order of their names, and those that are there already
win. -/
def withOptions (t : Schema) (options : Options) : Except Error Schema := do
  options.entries.forM fun entry => t.checkOption entry.1 entry.2
  return { t with options := t.options.extend options }

end Schema

end StateTree
