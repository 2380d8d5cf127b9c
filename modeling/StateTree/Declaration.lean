import StateTree.Schema.Same

/-
  Declarations of scalars: a type, perhaps a default, and whether the value falls back to the
  default when the front end disconnects. Making a declaration required leaves it pending until a
  default is known.
-/

namespace StateTree

structure Declaration where
  schema : Schema
  default? : Option Value
  resetOnDisconnect : Bool

namespace Declaration

/-- Without a default, and kept when the front end disconnects. -/
def ofSchema (schema : Schema) : Declaration := ⟨schema, none, false⟩

/-- The required declaration of a plain type that already has its default. -/
def settled (p : Primitive) (value : Value) : Declaration :=
  ⟨(Schema.primitive p).asRequired, some value, false⟩

/-- A node can be built unless a required value has no default. -/
def isUsable (d : Declaration) : Bool := !d.schema.required || d.default?.isSome

def defaultsTo (d : Declaration) (value : Value) : Declaration := { d with default? := some value }

def withOptions (d : Declaration) (options : Options) : Except Error Declaration := do
  return { d with schema := ← d.schema.withOptions options }

def same (a b : Declaration) : Bool :=
  a.schema.same b.schema &&
    (match a.default?, b.default? with
      | none, none => true
      | some v, some w => v.same w
      | _, _ => false) &&
    a.resetOnDisconnect == b.resetOnDisconnect

end Declaration

/-- A declaration made required: ready if it has a default, else still waiting for one. -/
inductive Required
  | ready (d : Declaration)
  | pending (template : Declaration)

namespace Required

def defaultsTo (r : Required) (value : Value) : Declaration :=
  match r with
  | .ready d => d.defaultsTo value
  | .pending template => template.defaultsTo value

def same : Required → Required → Bool
  | .ready a, .ready b => a.same b
  | .pending a, .pending b => a.same b
  | _, _ => false

end Required

/-- The required form of a declaration. Types that are neither required nor optional have none. -/
def Declaration.require? (d : Declaration) : Option Required :=
  let required := { d with schema := d.schema.asRequired }
  if d.schema.supportsRequired then
    some (if d.default?.isSome then .ready required else .pending required)
  else none

end StateTree
