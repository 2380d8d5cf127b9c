import Mathlib.Data.List.Forall2
import StateTree.Value

/-
  Values up to the classes of their instances. A snapshot of a composite is always an object, also
  where an instance was taken apart to build it. `Carries w v` is what such a snapshot `w` keeps of
  the value `v`: all but the class names, and all of it if `v` holds no instance.
-/

namespace StateTree.Value

mutual

/-- The value in which every instance is the object of its fields. -/
def plain : Value → Value
  | .array items => .array (plainItems items)
  | .object fields => .object (plainFields fields)
  | .instanceOf _ fields => .object (plainFields fields)
  | v => v

def plainItems : List Value → List Value
  | [] => []
  | v :: rest => plain v :: plainItems rest

def plainFields : List (String × Value) → List (String × Value)
  | [] => []
  | (name, v) :: rest => (name, plain v) :: plainFields rest

end

mutual

/-- Whether a value holds no instance at any depth. -/
def instanceFree : Value → Bool
  | .array items => itemsFree items
  | .object fields => fieldsFree fields
  | .instanceOf _ _ => false
  | _ => true

def itemsFree : List Value → Bool
  | [] => true
  | v :: rest => instanceFree v && itemsFree rest

def fieldsFree : List (String × Value) → Bool
  | [] => true
  | (_, v) :: rest => instanceFree v && fieldsFree rest

end

theorem plainItems_eq_map (items : List Value) : plainItems items = items.map plain := by
  induction items with
  | nil => rfl
  | cons v rest ih => rw [plainItems, ih, List.map_cons]

theorem plainFields_eq_map (fields : List (String × Value)) :
    plainFields fields = fields.map fun field => (field.1, field.2.plain) := by
  induction fields with
  | nil => rfl
  | cons field rest ih => rw [plainFields, ih, List.map_cons]

/-! ## Carried values -/

structure Carries (w v : Value) : Prop where
  plain_eq : w.plain = v.plain
  eq_of_free : v.instanceFree = true → w = v

theorem Carries.refl (v : Value) : Carries v v := ⟨rfl, fun _ => rfl⟩

theorem carries_items {ws vs : List Value} (h : List.Forall₂ Carries ws vs) :
    plainItems ws = plainItems vs ∧ (itemsFree vs = true → ws = vs) := by
  induction h with
  | nil => exact ⟨rfl, fun _ => rfl⟩
  | cons hone _ ih =>
    refine ⟨by rw [plainItems, plainItems, hone.plain_eq, ih.1], fun hfree => ?_⟩
    rw [itemsFree, Bool.and_eq_true] at hfree
    rw [hone.eq_of_free hfree.1, ih.2 hfree.2]

theorem carries_fields {ws vs : List (String × Value)}
    (h : List.Forall₂ (fun w v => w.1 = v.1 ∧ Carries w.2 v.2) ws vs) :
    plainFields ws = plainFields vs ∧ (fieldsFree vs = true → ws = vs) := by
  induction h with
  | nil => exact ⟨rfl, fun _ => rfl⟩
  | @cons w v ws vs hone _ ih =>
    obtain ⟨name, w⟩ := w
    obtain ⟨name', v⟩ := v
    obtain ⟨hname, hone⟩ := hone
    change name = name' at hname
    change Carries w v at hone
    refine ⟨by rw [plainFields, plainFields, hname, hone.plain_eq, ih.1], fun hfree => ?_⟩
    rw [fieldsFree, Bool.and_eq_true] at hfree
    rw [hname, hone.eq_of_free hfree.1, ih.2 hfree.2]

theorem carries_array {ws vs : List Value} (h : List.Forall₂ Carries ws vs) :
    Carries (.array ws) (.array vs) := by
  obtain ⟨hplain, hfree⟩ := carries_items h
  exact ⟨congrArg Value.array hplain, fun hv => congrArg Value.array (hfree hv)⟩

theorem carries_object {ws vs : List (String × Value)}
    (h : List.Forall₂ (fun w v => w.1 = v.1 ∧ Carries w.2 v.2) ws vs) :
    Carries (.object ws) (.object vs) := by
  obtain ⟨hplain, hfree⟩ := carries_fields h
  exact ⟨congrArg Value.object hplain, fun hv => congrArg Value.object (hfree hv)⟩

/-- An object carries an instance of any class with these fields. -/
theorem carries_instanceOf {ws vs : List (String × Value)} (className : String)
    (h : List.Forall₂ (fun w v => w.1 = v.1 ∧ Carries w.2 v.2) ws vs) :
    Carries (.object ws) (.instanceOf className vs) :=
  ⟨congrArg Value.object (carries_fields h).1, fun hv => by simp [instanceFree] at hv⟩

end StateTree.Value
