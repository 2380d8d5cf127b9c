import StateTree.Json.Token
import StateTree.Json.Writer
import StateTree.Settings
import StateTree.Text.Outline

/-
  Reading settings from a JSON document. The document is an object with the fields
  `literalContainers` and `instances`, each at most once, or an array of the two values in this
  order; what is left out keeps its standard value. A value is the name of a policy, or an object
  whose only field has that name and the value null. The first problem in the order of the text is
  reported.
-/

namespace StateTree

namespace Settings

/-- Why a text gives no settings. -/
inductive Problem
  | malformed
  | unknownField (name : String)
  | duplicateField (name : String)
  | unknownPolicy (name : String) (policies : List String)
  | invalidType (found expected : String)
deriving DecidableEq

def quotedName (name : String) : String := "`" ++ name ++ "`"

def anyOf (names : List String) : String := " or ".intercalate (names.map quotedName)

/-- The text of a problem, if there is more to say than that the text is malformed. -/
def Problem.message? : Problem → Option String
  | .malformed => none
  | .unknownField name =>
    some ("unknown field " ++ quotedName name ++ ", expected " ++
      anyOf ["literalContainers", "instances"])
  | .duplicateField name => some ("duplicate field " ++ quotedName name)
  | .unknownPolicy name policies =>
    some ("unknown variant " ++ quotedName name ++ ", expected " ++ anyOf policies)
  | .invalidType found expected => some ("invalid type: " ++ found ++ ", expected " ++ expected)

/-! ## Policies -/

def containerPolicies : List (String × ContainerPolicy) :=
  [("opaque", .whole), ("structural", .structural)]

def instancePolicies : List (String × InstancePolicy) :=
  [("instanceOf", .instanceOf), ("expand", .expand)]

open Binary64 in
/-- The kind of value that a numeral stands for, unless it is too large for a number. -/
def describeNumeral? (n : Json.Numeral) : Option String :=
  let inWords : Bool := -(2 ^ (63 : Nat)) ≤ n.toInt && n.toInt < 2 ^ (64 : Nat) &&
    !(n.negative && n.toInt == 0)
  if n.isInteger && inWords then some ("integer " ++ quotedName (toString n.toInt))
  else n.binary64?.map fun x => "floating point " ++ quotedName (Json.floatText x)

/-- The kind of value that begins with a token. -/
def describe? : Json.Token → Option String
  | .null => some "null"
  | .bool b => some ("boolean " ++ quotedName (if b then "true" else "false"))
  | .number n => describeNumeral? n
  | .string s => some ("string " ++ Text.escaped s)
  | .openArray => some "sequence"
  | .openObject => some "map"
  | _ => none

/-- What is wrong with a token that begins no value of the expected kind. -/
def mismatch (t : Json.Token) (expected : String) : Problem :=
  match describe? t with
  | some found => .invalidType found expected
  | none => .malformed

def policyNamed {α : Type} (policies : List (String × α)) (name : String) : Except Problem α :=
  match policies.lookup name with
  | some policy => .ok policy
  | none => .error (.unknownPolicy name (policies.map (·.1)))

/-- Reads the value of a field, and gives what follows it. A policy stands for itself, or in an
object as the name of a field whose value is null. -/
def readPolicy {α : Type} (policies : List (String × α)) :
    List Json.Token → Except Problem (α × List Json.Token)
  | .string name :: rest => (policyNamed policies name).map (·, rest)
  | .openObject :: .string name :: rest => do
    let policy ← policyNamed policies name
    match rest with
    | .colon :: .null :: .closeObject :: rest => return (policy, rest)
    | .colon :: .null :: _ => .error .malformed
    | .colon :: t :: _ => .error (mismatch t "unit")
    | _ => .error .malformed
  | _ => .error .malformed

/-! ## Fields -/

inductive Field
  | containers
  | instances
deriving DecidableEq

def Field.ofName? : String → Option Field
  | "literalContainers" => some .containers
  | "instances" => some .instances
  | _ => none

/-- Reads the value of a field into the settings. -/
def Field.read (settings : Settings) (tokens : List Json.Token) :
    Field → Except Problem (Settings × List Json.Token)
  | .containers => do
    let (policy, rest) ← readPolicy containerPolicies tokens
    return ({ settings with containers := policy }, rest)
  | .instances => do
    let (policy, rest) ← readPolicy instancePolicies tokens
    return ({ settings with instances := policy }, rest)

/-- Reads fields up to the end of the object, where at most `left` are still to come and `seen`
have come already. -/
def readFields (left : Nat) (seen : List Field) (settings : Settings) :
    List Json.Token → Except Problem (Settings × List Json.Token)
  | .string name :: rest =>
    match Field.ofName? name with
    | none => .error (.unknownField name)
    | some field =>
      if field ∈ seen then .error (.duplicateField name)
      else
        match left, rest with
        | left + 1, .colon :: rest => do
          let (settings, rest) ← field.read settings rest
          match rest with
          | .comma :: rest => readFields left (field :: seen) settings rest
          | .closeObject :: rest => return (settings, rest)
          | _ => .error .malformed
        | _, _ => .error .malformed
  | _ => .error .malformed

/-- Reads the values of an array up to its end. -/
def readSequence : List Json.Token → Except Problem (Settings × List Json.Token)
  | .closeArray :: rest => .ok (standard, rest)
  | tokens => do
    let (settings, rest) ← Field.containers.read standard tokens
    match rest with
    | .closeArray :: rest => return (settings, rest)
    | .comma :: rest =>
      let (settings, rest) ← Field.instances.read settings rest
      match rest with
      | .closeArray :: rest => return (settings, rest)
      | _ => .error .malformed
    | _ => .error .malformed

def ofTokens : List Json.Token → Except Problem Settings
  | .openObject :: .closeObject :: rest => finish (standard, rest)
  | .openObject :: rest => readFields 2 [] standard rest >>= finish
  | .openArray :: rest => readSequence rest >>= finish
  | t :: _ => .error (mismatch t "struct CompileOptions")
  | [] => .error .malformed
where
  /-- Nothing may follow. -/
  finish (result : Settings × List Json.Token) : Except Problem Settings :=
    if result.2.isEmpty then .ok result.1 else .error .malformed

def ofJson (text : String) : Except Problem Settings := ofTokens (Json.Token.scan text.toList)

end Settings

end StateTree
