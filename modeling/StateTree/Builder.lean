import StateTree.Declaration
import StateTree.Text.Character

/-
  Declarations made from scratch: by name, from the values of an enumeration, from the name of a
  class or from a check.
-/

namespace StateTree.Declaration

def primitive (p : Primitive) : Declaration := ofSchema (.primitive p)

/-- A string with one flag set. -/
def flagged (option : String) : Declaration :=
  ofSchema { Schema.primitive .string with options := Options.empty.add option (.bool true) }

def email : Declaration := flagged "isEmail"

def url : Declaration := flagged "isUrl"

def uuid : Declaration := flagged "isUuid"

/-- A string that is forgotten when the front end disconnects. -/
def password : Declaration := { primitive .string with resetOnDisconnect := true }

/-- The declaration that a name stands for on its own. -/
def named? (name : String) : Option Declaration :=
  match Primitive.ofName? name with
  | some p => some (primitive p)
  | none => [("email", email), ("url", url), ("uuid", uuid), ("password", password)].lookup name

/-- One of at least one value. -/
def enum? (values : List Value) : Except Error Declaration :=
  if values.isEmpty then .error .emptyEnum else .ok (ofSchema (.ofKind (.enum values)))

/-- An instance of a class, whose name is not blank. -/
def instanceOf? (className : String) : Except Error Declaration :=
  if Text.isBlank className then .error .emptyClassName
  else .ok (ofSchema (.ofKind (.instanceOf className)))

def custom (check : Check) : Declaration := ofSchema (.ofKind (.custom check))

end StateTree.Declaration
