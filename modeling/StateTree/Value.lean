import StateTree.Fields
import StateTree.Number

/-
  Literal values: what a configuration holds as data and what a scalar of a state tree carries.
  Documents only ever give the values up to `object`; symbols, functions and instances of a class
  come from the program that builds the configuration. Names within one object are distinct.
-/

namespace StateTree

inductive Value
  | null
  | bool (b : Bool)
  | number (n : Number)
  | string (s : String)
  | array (items : List Value)
  | object (fields : List (String × Value))
  | symbol (name : String)
  | function (name : String)
  | instanceOf (className : String) (fields : List (String × Value))
deriving Inhabited

namespace Value

/-- Why a value cannot be read in the form that was asked for. -/
inductive Mismatch
  | notString
  | notNumber
  | notArray
  | notObject
deriving DecidableEq

def Mismatch.message : Mismatch → String
  | .notString => "not a string"
  | .notNumber => "not a number"
  | .notArray => "not an array"
  | .notObject => "not an object"

def asString : Value → Except Mismatch String
  | .string s => .ok s
  | _ => .error .notString

def asNumber : Value → Except Mismatch Number
  | .number n => .ok n
  | _ => .error .notNumber

def asArray : Value → Except Mismatch (List Value)
  | .array items => .ok items
  | _ => .error .notArray

def asObject : Value → Except Mismatch (Fields Value)
  | .object fields => .ok fields
  | _ => .error .notObject

def isNull : Value → Bool
  | .null => true
  | _ => false

def isEmptyObject : Value → Bool
  | .object [] => true
  | _ => false

/-- The item at a position of an array, null where there is none. -/
def item (v : Value) (index : Nat) : Value :=
  match v with
  | .array items => items[index]?.getD .null
  | _ => .null

/-- The field of an object or an instance, null where there is none. -/
def field (v : Value) (name : String) : Value :=
  match v with
  | .object fields => (Fields.get? fields name).getD .null
  | .instanceOf _ fields => (Fields.get? fields name).getD .null
  | _ => .null

end Value

end StateTree
