import StateTree.Builder
import StateTree.Config

/-
  Inferring declarations from literals. A value becomes a required scalar of the type it shows,
  with itself as the default; null becomes an optional scalar of any type. Nothing is inferred
  from what has to be taken apart: an object with fields, and an instance if instances are taken
  apart.
-/

namespace StateTree

/-- What becomes of an instance of a class. -/
inductive InstancePolicy
  /-- It is a scalar of its class. -/
  | instanceOf
  /-- It is taken for the object of its fields. -/
  | expand
deriving DecidableEq

/-- What inference depends on besides the literal. -/
structure Inference where
  /-- Which arrays, objects and instances are elements of a user interface. -/
  isElement : Value → Bool
  instances : InstancePolicy

namespace Inference

/-- Knows no elements and keeps instances. -/
def standard : Inference := ⟨fun _ => false, .instanceOf⟩

/-- What is inferred from an instance that is no element. A class with a blank name has no type. -/
def ofInstance? (inference : Inference) (className : String) (fields : Fields Value) :
    Option Declaration :=
  let v := Value.instanceOf className fields
  match inference.instances with
  | .instanceOf => ((Declaration.instanceOf? className).toOption).map (·.defaultsTo v)
  | .expand => if fields.isEmpty then some (.settled .object v) else none

def ofValue? (inference : Inference) (v : Value) : Option Declaration :=
  match v with
  | .null => some (.primitive .any)
  | .bool _ => some (.settled .bool v)
  | .number _ => some (.settled .number v)
  | .string _ => some (.settled .string v)
  | .symbol _ => some (.settled .symbol v)
  | .function _ => some (.settled .function v)
  | .array _ => some (.settled (if inference.isElement v then .element else .array) v)
  | .object fields =>
    if inference.isElement v then some (.settled .element v)
    else if fields.isEmpty then some (.settled .object v)
    else none
  | .instanceOf className fields =>
    if inference.isElement v then some (.settled .element v)
    else inference.ofInstance? className fields

/-- Infers from an entry: from a literal, from a sequence of literals, from a record without
fields. -/
def ofConfig? (inference : Inference) (c : Config) : Option Declaration :=
  match c with
  | .literal v => inference.ofValue? v
  | .sequence _ => c.toLiteral?.map (.settled .array)
  | .record [] => some (.settled .object (.object []))
  | _ => none

end Inference

end StateTree
