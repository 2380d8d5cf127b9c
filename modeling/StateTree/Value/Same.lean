import StateTree.Value

/-
  Equality of values as the program sees it: numbers by their order, arrays item by item, objects
  and instances by name, so that the order of fields makes no difference.
-/

namespace StateTree.Value

mutual

def same : Value → Value → Bool
  | .null, .null => true
  | .bool a, .bool b => a == b
  | .number m, .number n => m.same n
  | .string s, .string t => s == t
  | .array xs, .array ys => sameItems xs ys
  | .object xs, .object ys => xs.length == ys.length && sameFields xs ys
  | .symbol s, .symbol t => s == t
  | .function s, .function t => s == t
  | .instanceOf c xs, .instanceOf d ys => c == d && (xs.length == ys.length && sameFields xs ys)
  | _, _ => false

def sameItems : List Value → List Value → Bool
  | [], [] => true
  | x :: xs, y :: ys => same x y && sameItems xs ys
  | _, _ => false

/-- Every field on the left has an equal one on the right. -/
def sameFields : List (String × Value) → List (String × Value) → Bool
  | [], _ => true
  | (name, x) :: xs, ys =>
    (match Fields.get? ys name with
      | some y => same x y
      | none => false) && sameFields xs ys

end

end StateTree.Value
