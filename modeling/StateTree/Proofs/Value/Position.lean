import StateTree.Path
import StateTree.Proofs.Fields
import StateTree.Value

/-
  Positions within a value. The segments of a path lead from a value through fields and items to
  the value at their end (`along`), and another value may be put there (`replace`), which leaves
  all other positions as they are.
-/

namespace StateTree

/-- Changes what a name stands for, if it stands for anything. -/
def Fields.modify {α : Type} (fields : Fields α) (name : String) (f : α → α) : Fields α :=
  match fields.get? name with
  | some value => fields.insert name (f value)
  | none => fields

theorem Fields.modify_cons {α : Type} (first : String) (value : α) (rest : Fields α)
    (name : String) (f : α → α) :
    Fields.modify ((first, value) :: rest) name f =
      if name = first then (first, f value) :: rest
      else (first, value) :: Fields.modify rest name f := by
  unfold Fields.modify
  rw [Fields.get?_cons]
  by_cases h : name = first
  · simp only [if_pos h, Fields.insert]
  · rw [if_neg h, if_neg h]
    cases Fields.get? rest name with
    | none => rfl
    | some old => simp only [Fields.insert, if_neg h]

theorem Fields.get?_modify_self {α : Type} (fields : Fields α) (name : String) (f : α → α) :
    (Fields.modify fields name f).get? name = (fields.get? name).map f := by
  unfold Fields.modify
  cases h : fields.get? name with
  | none => exact h
  | some value => exact Fields.get?_insert_self fields name (f value)

namespace Value

/-- What one segment names: an item of an array by its position, a field of an object by its name.
Null where there is neither. -/
def part (v : Value) (segment : String) : Value :=
  match v with
  | .array _ => ((Path.index? segment).map v.item).getD .null
  | _ => v.field segment

/-- Indexes a value by one segment after the other. -/
def along (v : Value) (segments : List String) : Value := segments.foldl part v

/-- Puts another value at the end of these segments. Where they lead nowhere, nothing changes. -/
def replace (v : Value) (segments : List String) (new : Value) : Value :=
  match segments, v with
  | [], _ => new
  | segment :: rest, .array items =>
    match Path.index? segment with
    | some i => .array (items.modify i fun item => replace item rest new)
    | none => .array items
  | segment :: rest, .object fields =>
    .object (Fields.modify fields segment fun field => replace field rest new)
  | _ :: _, v => v

variable {segment : String} {v : Value}

theorem part_array_modify {items : List Value} {i : Nat} (hi : Path.index? segment = some i)
    (hv : items[i]? = some v) (f : Value → Value) :
    (Value.array (items.modify i f)).part segment = f v := by
  simp [part, item, hi, hv]

theorem part_object_modify {fields : Fields Value} (hv : fields.get? segment = some v)
    (f : Value → Value) : (Value.object (Fields.modify fields segment f)).part segment = f v := by
  show ((Fields.modify fields segment f).get? segment).getD .null = f v
  rw [Fields.get?_modify_self, hv]
  rfl

end Value

end StateTree
