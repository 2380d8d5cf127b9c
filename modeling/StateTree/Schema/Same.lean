import StateTree.Schema
import StateTree.Value.Same

/-
  Equality of schemas. Candidates of a union and values of an enumeration are compared in order,
  fields of a shape by name. Unions are built from lists of types without repetition.
-/

namespace StateTree

def Check.same (a b : Check) : Bool := a.name == b.name && a.tag == b.tag

/-- Equal names and values, entry by entry. -/
def Options.same (a b : Options) : Bool :=
  go a.entries b.entries
where
  go : List (String × Value) → List (String × Value) → Bool
    | [], [] => true
    | (m, x) :: xs, (n, y) :: ys => m == n && x.same y && go xs ys
    | _, _ => false

mutual

def Kind.same : Kind → Kind → Bool
  | .primitive p, .primitive q => p == q
  | .enum xs, .enum ys => Value.sameItems xs ys
  | .instanceOf c, .instanceOf d => c == d
  | .custom a, .custom b => a.same b
  | .arrayOf t, .arrayOf u => Schema.same t u
  | .objectOf t, .objectOf u => Schema.same t u
  | .oneOf ts, .oneOf us => Schema.sameList ts us
  | .shapeOf fs, .shapeOf gs => fs.length == gs.length && Schema.sameFields fs gs
  | .exactShapeOf fs, .exactShapeOf gs => fs.length == gs.length && Schema.sameFields fs gs
  | _, _ => false

def Schema.same : Schema → Schema → Bool
  | ⟨kind, required, options⟩, t =>
    Kind.same kind t.kind && required == t.required && options.same t.options

def Schema.sameList : List Schema → List Schema → Bool
  | [], [] => true
  | t :: ts, u :: us => Schema.same t u && Schema.sameList ts us
  | _, _ => false

/-- Every field on the left has one of an equal type on the right. -/
def Schema.sameFields : List (String × Schema) → List (String × Schema) → Bool
  | [], _ => true
  | (name, t) :: rest, gs =>
    (match Fields.get? gs name with
      | some u => Schema.same t u
      | none => false) && Schema.sameFields rest gs

end

namespace Schema

/-! ## Unions -/

/-- The types without later repetitions of an equal one. -/
def distinct (types : List Schema) : List Schema :=
  types.foldl (fun seen t => if seen.any (·.same t) then seen else seen ++ [t]) []

/-- The union of at least one type. -/
def oneOf? (candidates : List Schema) : Except Error Schema :=
  if candidates.isEmpty then .error .emptyUnion
  else .ok (ofKind (.oneOf (distinct candidates)))

/-- One type for all items of an array: any type if there are none, and a union only if they
differ. -/
def unify (types : List Schema) : Except Error Schema :=
  if types.isEmpty then .ok (primitive .any)
  else
    match distinct types with
    | [t] => .ok t
    | candidates => oneOf? candidates

end Schema

end StateTree
