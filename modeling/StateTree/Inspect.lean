import StateTree.Schema.Text
import StateTree.Store.Tree
import StateTree.Text.Outline

/-
  Inspection texts: values, types, declarations and nodes written out in full, each under the name
  of its form.
-/

namespace StateTree

mutual

def Value.inspect : Value → String
  | .null => "Null"
  | .bool b => Text.applied "Bool" (Text.flag b)
  | .number n => Text.applied "Number" n.text
  | .string s => Text.applied "String" (Text.escaped s)
  | .array items => Text.applied "Array" (Text.listed (Value.inspectItems items))
  | .object fields => Text.applied "Object" (Text.mapped (Value.inspectFields fields))
  | .symbol name => Text.applied "Symbol" (Text.escaped name)
  | .function name => Text.applied "Function" (Text.escaped name)
  | .instanceOf className fields =>
    Text.applied "Instance" (Text.structured "Instance"
      [("class", Text.escaped className), ("fields", Text.mapped (Value.inspectFields fields))])

def Value.inspectItems : List Value → List String
  | [] => []
  | v :: rest => Value.inspect v :: Value.inspectItems rest

def Value.inspectFields : List (String × Value) → List (String × String)
  | [] => []
  | (name, v) :: rest => (name, Value.inspect v) :: Value.inspectFields rest

end

def Primitive.inspect (p : Primitive) : String := p.name.capitalize

mutual

def Kind.inspect : Kind → String
  | .primitive p => Text.applied "Primitive" p.inspect
  | .enum values => Text.applied "Enum" (Text.listed (Value.inspectItems values))
  | .instanceOf className => Text.applied "InstanceOf" (Text.escaped className)
  | .custom check =>
    Text.applied "Custom" (Text.applied "Predicate" (Text.escaped check.name))
  | .arrayOf element => Text.applied "ArrayOf" (Schema.inspect element)
  | .objectOf value => Text.applied "ObjectOf" (Schema.inspect value)
  | .oneOf candidates => Text.applied "OneOf" (Text.listed (Schema.inspectAll candidates))
  | .shapeOf fields => Text.applied "ShapeOf" (Text.mapped (Schema.inspectFields fields))
  | .exactShapeOf fields => Text.applied "ExactShapeOf" (Text.mapped (Schema.inspectFields fields))

def Schema.inspect : Schema → String
  | ⟨kind, required, options⟩ =>
    Text.structured "TypeDescriptor"
      [("kind", Kind.inspect kind), ("required", Text.flag required),
        ("options", Text.mapped (Value.inspectFields options.entries))]

def Schema.inspectAll : List Schema → List String
  | [] => []
  | t :: rest => Schema.inspect t :: Schema.inspectAll rest

def Schema.inspectFields : List (String × Schema) → List (String × String)
  | [] => []
  | (name, t) :: rest => (name, Schema.inspect t) :: Schema.inspectFields rest

end

def Declaration.inspect (d : Declaration) : String :=
  Text.structured "Configurator"
    [("descriptor", d.schema.inspect), ("default", Text.optional (d.default?.map Value.inspect)),
      ("reset_on_disconnect", Text.flag d.resetOnDisconnect)]

def Required.inspect : Required → String
  | .ready d => Text.applied "Ready" d.inspect
  | .pending template =>
    Text.applied "Pending"
      (Text.structured "InvalidConfigurator" [("template", template.inspect)])

/-! ## Nodes -/

/-- The kind of the node that a validation refers to, as long as that node is not gone. -/
def Store.targetKind? (s : Store) (target : NodeId) : Option String :=
  (s.node? target).map Node.kindName

mutual

/-- A tree of nodes of a store. -/
def Tree.inspect (s : Store) : Tree → String
  | .scalar _ slot =>
    Text.structured "Scalar"
      [("type", slot.declaration.schema.text), ("value", slot.value.inspect)]
  | .list _ items => Text.listed (Tree.inspectItems s items)
  | .composite _ fields => Text.mapped (Tree.inspectFields s fields)
  | .validation _ target =>
    Text.structured "Validation"
      [("target", Text.optional ((s.targetKind? target).map Text.escaped))]

def Tree.inspectItems (s : Store) : List Tree → List String
  | [] => []
  | t :: rest => Tree.inspect s t :: Tree.inspectItems s rest

def Tree.inspectFields (s : Store) : List (String × Tree) → List (String × String)
  | [] => []
  | (name, t) :: rest => (name, Tree.inspect s t) :: Tree.inspectFields s rest

end

def Store.inspect? (s : Store) (id : NodeId) : Option String := (s.tree? id).map (Tree.inspect s)

end StateTree
