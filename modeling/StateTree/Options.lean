import StateTree.Value

/-
  Options of a type, such as a least length, in the order of their names. Main statement: adding
  options keeps every option that is already there (`get?_extend`).
-/

namespace StateTree

/-- What the value of an option must look like. -/
inductive OptionForm
  | flag
  | count
  | number
  | text
deriving DecidableEq

namespace OptionForm

def accepts : OptionForm → Value → Bool
  | .flag, .bool _ => true
  | .count, .number n => n.toNat?.isSome
  | .number, .number _ => true
  | .text, .string _ => true
  | _, _ => false

def description : OptionForm → String
  | .flag => "a boolean"
  | .count => "a non-negative integer"
  | .number => "a number"
  | .text => "a string"

end OptionForm

namespace Options

/-! ## Entries in the order of their names -/

/-- Adds an entry in its place, unless its name is there already. -/
def insertNew (entries : List (String × Value)) (name : String) (value : Value) :
    List (String × Value) :=
  match entries with
  | [] => [(name, value)]
  | (other, old) :: rest =>
    if name = other then (other, old) :: rest
    else if name < other then (name, value) :: (other, old) :: rest
    else (other, old) :: insertNew rest name value

theorem mem_insertNew {entries : List (String × Value)} {name : String} {value : Value}
    {entry : String × Value} (h : entry ∈ insertNew entries name value) :
    entry = (name, value) ∨ entry ∈ entries := by
  induction entries with
  | nil => simpa [insertNew] using h
  | cons first rest ih =>
    unfold insertNew at h
    split at h
    · exact Or.inr h
    · split at h
      · simpa using h
      · rcases List.mem_cons.1 h with h | h
        · exact Or.inr (by simp [h])
        · rcases ih h with h | h
          · exact Or.inl h
          · exact Or.inr (List.mem_cons_of_mem _ h)

theorem pairwise_insertNew {entries : List (String × Value)}
    (h : entries.Pairwise (·.1 < ·.1)) (name : String) (value : Value) :
    (insertNew entries name value).Pairwise (·.1 < ·.1) := by
  induction entries with
  | nil => simp [insertNew]
  | cons first rest ih =>
    obtain ⟨other, old⟩ := first
    have hr := List.pairwise_cons.1 h
    unfold insertNew
    split
    · exact h
    · next hne =>
      split
      · next hlt =>
        refine List.pairwise_cons.2 ⟨?_, h⟩
        intro entry he
        rcases List.mem_cons.1 he with rfl | he
        · exact hlt
        · exact String.lt_trans hlt (hr.1 entry he)
      · next hlt =>
        have hgt : other < name := Std.lt_of_le_of_ne (String.not_lt.1 hlt) (Ne.symm hne)
        refine List.pairwise_cons.2 ⟨?_, ih hr.2⟩
        intro entry he
        rcases mem_insertNew he with rfl | he
        · exact hgt
        · exact hr.1 entry he

theorem get?_eq_none_of_lt {entries : List (String × Value)} {name : String}
    (h : ∀ entry ∈ entries, name < entry.1) : Fields.get? entries name = none := by
  induction entries with
  | nil => rfl
  | cons first rest ih =>
    have hne : name ≠ first.1 := fun e => String.lt_irrefl _ (e ▸ h first (by simp))
    rw [Fields.get?_cons, if_neg hne]
    exact ih fun entry he => h entry (List.mem_cons_of_mem _ he)

theorem get?_insertNew {entries : List (String × Value)} (sorted : entries.Pairwise (·.1 < ·.1))
    (name : String) (value : Value) (other : String) :
    Fields.get? (insertNew entries name value) other =
      (Fields.get? entries other).or (if other = name then some value else none) := by
  induction entries with
  | nil => simp [insertNew, Fields.get?_cons]
  | cons first rest ih =>
    obtain ⟨head, old⟩ := first
    have hr := List.pairwise_cons.1 sorted
    unfold insertNew
    split
    · next h =>
      subst h
      by_cases k : other = name <;> simp [Fields.get?_cons, k]
    · next h =>
      split
      · next hlt =>
        by_cases k : other = name
        · subst k
          have hnone := get?_eq_none_of_lt fun entry he => String.lt_trans hlt (hr.1 entry he)
          simp [Fields.get?_cons, h, hnone]
        · simp [Fields.get?_cons, k]
      · by_cases l : other = head
        · simp [Fields.get?_cons, l]
        · simp [Fields.get?_cons, l, ih hr.2]

end Options

/-- Option values by name, sorted, each name once. -/
structure Options where
  entries : List (String × Value)
  sorted : entries.Pairwise (·.1 < ·.1)

namespace Options

def empty : Options := ⟨[], .nil⟩

instance : EmptyCollection Options := ⟨empty⟩

instance : Inhabited Options := ⟨empty⟩

def get? (o : Options) (name : String) : Option Value := Fields.get? o.entries name

/-- Adds an option, unless there is one of that name. -/
def add (o : Options) (name : String) (value : Value) : Options :=
  ⟨insertNew o.entries name value, pairwise_insertNew o.sorted name value⟩

/-- Adds the options that are not there yet. -/
def addFields (o : Options) (fields : Fields Value) : Options :=
  fields.foldl (fun o entry => o.add entry.1 entry.2) o

def ofFields (fields : Fields Value) : Options := empty.addFields fields

/-- All options of both, where those already there win. -/
def extend (o more : Options) : Options := o.addFields more.entries

theorem get?_add (o : Options) (name : String) (value : Value) (other : String) :
    (o.add name value).get? other =
      (o.get? other).or (if other = name then some value else none) :=
  get?_insertNew o.sorted name value other

theorem get?_addFields (o : Options) (fields : Fields Value) (name : String) :
    (o.addFields fields).get? name = (o.get? name).or (fields.get? name) := by
  induction fields generalizing o with
  | nil => simp [addFields]
  | cons entry rest ih =>
    have h := ih (o.add entry.1 entry.2)
    unfold addFields at h ⊢
    rw [List.foldl_cons, h, get?_add, Fields.get?_cons]
    cases o.get? name <;> by_cases k : name = entry.1 <;> simp [k]

/-- Options that are there win, and only absent ones are added. -/
theorem get?_extend (o more : Options) (name : String) :
    (o.extend more).get? name = (o.get? name).or (more.get? name) :=
  get?_addFields o more.entries name

end Options

end StateTree
