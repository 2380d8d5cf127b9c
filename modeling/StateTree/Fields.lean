/-
  Named fields in declaration order. A name stands once: writing a name that is already there
  keeps its place and replaces what it names, and a new name goes to the end.
-/

namespace StateTree

abbrev Fields (α : Type) := List (String × α)

namespace Fields

variable {α : Type}

/-- What `name` stands for. -/
def get? (fields : Fields α) (name : String) : Option α := fields.lookup name

/-- The names in declaration order. -/
def names (fields : Fields α) : List String := fields.map (·.1)

/-- Writes `name`, in its old place if it has one and else at the end. -/
def insert (fields : Fields α) (name : String) (value : α) : Fields α :=
  match fields with
  | [] => [(name, value)]
  | (other, old) :: rest =>
    if name = other then (other, value) :: rest else (other, old) :: insert rest name value

/-- Reads a list of entries in which a later entry of a name replaces an earlier one. -/
def ofEntries (entries : List (String × α)) : Fields α :=
  entries.foldl (fun fields entry => fields.insert entry.1 entry.2) []

/-- No name stands twice. -/
def Distinct (fields : Fields α) : Prop := fields.names.Nodup

/-! ## Reading back what was written -/

@[simp] theorem get?_nil (name : String) : get? ([] : Fields α) name = none := rfl

theorem get?_cons (other : String) (value : α) (rest : Fields α) (name : String) :
    get? ((other, value) :: rest) name = if name = other then some value else get? rest name := by
  by_cases h : name = other
  · simp [get?, h]
  · simp [get?, List.lookup_cons, h, beq_eq_false_iff_ne.2 h]

theorem get?_insert (fields : Fields α) (name : String) (value : α) (other : String) :
    (fields.insert name value).get? other =
      if other = name then some value else fields.get? other := by
  induction fields with
  | nil => simp [insert, get?_cons]
  | cons entry rest ih =>
    obtain ⟨first, old⟩ := entry
    by_cases h : name = first
    · subst h
      by_cases k : other = name <;> simp [insert, get?_cons, k]
    · by_cases k : other = first
      · subst k
        simp [insert, get?_cons, h, Ne.symm h]
      · simp [insert, get?_cons, h, k, ih]

@[simp] theorem get?_insert_self (fields : Fields α) (name : String) (value : α) :
    (fields.insert name value).get? name = some value := by
  simp [get?_insert]

@[simp] theorem names_cons (name : String) (value : α) (rest : Fields α) :
    names ((name, value) :: rest) = name :: names rest := rfl

theorem mem_names_iff (fields : Fields α) (name : String) :
    name ∈ fields.names ↔ (fields.get? name).isSome := by
  induction fields with
  | nil => simp [names]
  | cons entry rest ih =>
    obtain ⟨first, old⟩ := entry
    by_cases h : name = first
    · simp [get?_cons, h]
    · simpa [get?_cons, h] using ih

/-- Writing keeps the order of the names, and only a new name is added, at the end. -/
theorem names_insert (fields : Fields α) (name : String) (value : α) :
    (fields.insert name value).names =
      if name ∈ fields.names then fields.names else fields.names ++ [name] := by
  induction fields with
  | nil => rfl
  | cons entry rest ih =>
    obtain ⟨first, old⟩ := entry
    by_cases h : name = first
    · simp [insert, h]
    · by_cases k : name ∈ names rest
      · rw [if_pos k] at ih
        simp [insert, h, k, ih]
      · rw [if_neg k] at ih
        simp [insert, h, k, ih]

theorem distinct_nil : Distinct ([] : Fields α) := List.nodup_nil

theorem Distinct.insert {fields : Fields α} (h : fields.Distinct) (name : String) (value : α) :
    (fields.insert name value).Distinct := by
  unfold Distinct
  rw [names_insert]
  split
  · exact h
  · next k =>
    refine List.nodup_append.2 ⟨h, by simp, ?_⟩
    intro a ha b hb e
    simp only [List.mem_singleton] at hb
    exact k (hb ▸ e ▸ ha)

theorem distinct_ofEntries (entries : List (String × α)) : (ofEntries entries).Distinct :=
  List.foldlRecOn entries _ distinct_nil fun _ h entry _ => h.insert entry.1 entry.2

end Fields

end StateTree
