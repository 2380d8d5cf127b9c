import StateTree.Json.Writer
import StateTree.Proofs.Number.Whole
import StateTree.Proofs.Value.Same

/-
  Values as documents have them. A document has no instances, symbols, functions and numbers that
  are not finite: `normal` puts in their place what they are written as. Reading the document gives
  `reread` instead, where every number that is an integer is held as one. Main statements: both are
  equal as the program sees it (`same_reread_normal`), and what is read is written like the value
  itself (`write_reread`).
-/

namespace StateTree

namespace Number

def isFinite : Number → Bool
  | .int _ => true
  | .float x => x.isFinite

/-- What a document has in place of a number: null if it is not finite. -/
def normal (n : Number) : Value := if n.isFinite then .number n else .null

/-- What is read where a number was written: an integer is held as one. -/
def reread (n : Number) : Value :=
  match n.toInt? with
  | some i => .number (.int (Int64.ofInt i))
  | none => n.normal

variable {n : Number} {i : Int}

theorem reread_of_toInt? (h : n.toInt? = some i) : n.reread = .number (.int (Int64.ofInt i)) := by
  unfold reread
  rw [h]

theorem reread_of_not_toInt? (h : n.toInt? = none) : n.reread = n.normal := by
  unfold reread
  rw [h]

theorem isFinite_of_toInt? (h : n.toInt? = some i) : n.isFinite = true := by
  cases n with
  | int j => rfl
  | float x => exact decide_eq_true (Binary64.toInt?_eq_some h).1

theorem same_reread_normal (n : Number) : n.reread.same n.normal = true := by
  cases hi : n.toInt? with
  | some i =>
    rw [reread_of_toInt? hi, normal, if_pos (isFinite_of_toInt? hi)]
    exact same_of_toInt? hi
  | none =>
    rw [reread_of_not_toInt? hi, normal]
    split
    · exact same_self n
    · rfl

theorem numberText_of_not_isFinite (h : n.isFinite ≠ true) :
    Json.numberText n = "null" := by
  unfold Json.numberText
  cases hi : n.toInt? with
  | some i => exact absurd (isFinite_of_toInt? hi) h
  | none =>
    cases n with
    | int j => exact absurd rfl h
    | float x => exact if_pos h

theorem write_reread (spacing : Json.Spacing) (depth : Nat) (n : Number) :
    Json.write spacing depth n.reread = Json.numberText n := by
  cases hi : n.toInt? with
  | some i =>
    have htext : Json.numberText (.int (Int64.ofInt i)) = toString (Int64.ofInt i).toInt := rfl
    rw [reread_of_toInt? hi, Json.write, htext, toInt_int64_of_toInt? hi, Json.numberText, hi]
  | none =>
    rw [reread_of_not_toInt? hi, normal]
    split
    · rfl
    · next h => exact (numberText_of_not_isFinite h).symm

end Number

namespace Value

/-! ## Values of documents -/

mutual

/-- The value that a document has in place of a value, given what it has in place of a number. -/
def document (number : Number → Value) : Value → Value
  | .null => .null
  | .bool b => .bool b
  | .number n => number n
  | .string s => .string s
  | .array items => .array (documentItems number items)
  | .object fields => .object (documentFields number fields)
  | .symbol name => .string ("<symbol " ++ name ++ ">")
  | .function name => .string ("<function " ++ name ++ ">")
  | .instanceOf _ fields => .object (documentFields number fields)

def documentItems (number : Number → Value) : List Value → List Value
  | [] => []
  | v :: rest => document number v :: documentItems number rest

def documentFields (number : Number → Value) : List (String × Value) → List (String × Value)
  | [] => []
  | (name, v) :: rest => (name, document number v) :: documentFields number rest

end

mutual

/-- How deep the containers of a value nest. -/
def depth : Value → Nat
  | .array items => itemsDepth items + 1
  | .object fields => fieldsDepth fields + 1
  | .instanceOf _ fields => fieldsDepth fields + 1
  | _ => 0

def itemsDepth : List Value → Nat
  | [] => 0
  | v :: rest => max (depth v) (itemsDepth rest)

def fieldsDepth : List (String × Value) → Nat
  | [] => 0
  | (_, v) :: rest => max (depth v) (fieldsDepth rest)

end

variable {number number' : Number → Value}

theorem names_documentFields (number : Number → Value) (fields : List (String × Value)) :
    Fields.names (documentFields number fields) = Fields.names fields := by
  induction fields with
  | nil => rfl
  | cons field rest ih => exact congrArg (field.1 :: ·) ih

theorem length_documentFields (number : Number → Value) (fields : List (String × Value)) :
    (documentFields number fields).length = fields.length := by
  have hlength := congrArg List.length (names_documentFields number fields)
  rwa [Fields.names, Fields.names, List.length_map, List.length_map] at hlength

theorem isEmpty_documentItems (number : Number → Value) (items : List Value) :
    (documentItems number items).isEmpty = items.isEmpty := by
  cases items with
  | nil => rfl
  | cons v rest => rfl

theorem isEmpty_documentFields (number : Number → Value) (fields : List (String × Value)) :
    (documentFields number fields).isEmpty = fields.isEmpty := by
  cases fields with
  | nil => rfl
  | cons field rest => rfl

/-! ## Documents of one value are equal -/

mutual

/-- Two documents of a value are equal if they are for every number. -/
theorem same_document (h : ∀ n, (number n).same (number' n) = true) : ∀ {v : Value},
    v.NamesDistinct → (v.document number).same (v.document number') = true
  | .null, _ => rfl
  | .bool b, _ => by simp [document, same]
  | .number n, _ => h n
  | .string s, _ => by simp [document, same]
  | .symbol name, _ => by simp [document, same]
  | .function name, _ => by simp [document, same]
  | .array items, hd => by
    rw [NamesDistinct] at hd
    rw [document, document, same]
    exact same_documentItems h hd
  | .object fields, hd => by
    rw [NamesDistinct] at hd
    rw [document, document]
    exact same_documentObject h hd.1 hd.2
  | .instanceOf _ fields, hd => by
    rw [NamesDistinct] at hd
    rw [document, document]
    exact same_documentObject h hd.1 hd.2

theorem same_documentItems (h : ∀ n, (number n).same (number' n) = true) :
    ∀ {items : List Value}, ItemsDistinct items →
      sameItems (documentItems number items) (documentItems number' items) = true
  | [], _ => rfl
  | v :: rest, hd => by
    rw [ItemsDistinct] at hd
    rw [documentItems, documentItems, sameItems, same_document h hd.1, same_documentItems h hd.2]
    rfl

theorem same_documentObject (h : ∀ n, (number n).same (number' n) = true)
    {fields : List (String × Value)} (hnames : Fields.Distinct fields)
    (hd : FieldsDistinct fields) :
    (Value.object (documentFields number fields)).same (.object (documentFields number' fields)) =
      true := by
  have hdistinct : Fields.Distinct (documentFields number' fields) := by
    unfold Fields.Distinct
    rw [names_documentFields]
    exact hnames
  rw [same, length_documentFields, length_documentFields, beq_self_eq_true, Bool.true_and]
  exact sameFields_of_mem hdistinct (same_documentFields h hd)

/-- Fields of one name are equal. -/
theorem same_documentFields (h : ∀ n, (number n).same (number' n) = true) :
    ∀ {fields : List (String × Value)}, FieldsDistinct fields →
      ∀ name x, (name, x) ∈ documentFields number fields →
        ∃ y, (name, y) ∈ documentFields number' fields ∧ x.same y = true
  | [], _, name, x, hm => by simp [documentFields] at hm
  | (first, v) :: rest, hd, name, x, hm => by
    rw [FieldsDistinct] at hd
    rw [documentFields] at hm ⊢
    rcases List.mem_cons.1 hm with e | hm
    · rw [Prod.mk.injEq] at e
      obtain ⟨rfl, rfl⟩ := e
      exact ⟨_, List.mem_cons_self, same_document h hd.1⟩
    · obtain ⟨y, hy, hsame⟩ := same_documentFields h hd.2 name x hm
      exact ⟨y, List.mem_cons_of_mem _ hy, hsame⟩

end

/-! ## Documents of one value have one text -/

open Json (Spacing write writeItems writeFields numberText)

variable {spacing : Spacing}

mutual

/-- A document has the text of the value if its numbers have theirs. -/
theorem write_document (h : ∀ depth n, write spacing depth (number n) = numberText n) :
    ∀ (v : Value) (depth : Nat), write spacing depth (v.document number) = write spacing depth v
  | .null, _ => rfl
  | .bool _, _ => rfl
  | .number n, depth => by
    rw [document, h, write]
  | .string _, _ => rfl
  | .symbol _, _ => by
    rw [document, write, write]
  | .function _, _ => by
    rw [document, write, write]
  | .array items, depth => by
    rw [document, write, write, writeItems_document h, isEmpty_documentItems]
  | .object fields, depth => by
    rw [document, write, write, writeFields_document h, isEmpty_documentFields]
  | .instanceOf _ fields, depth => by
    rw [document, write, write, writeFields_document h, isEmpty_documentFields]

theorem writeItems_document (h : ∀ depth n, write spacing depth (number n) = numberText n) :
    ∀ (items : List Value) (depth : Nat),
      writeItems spacing depth (documentItems number items) = writeItems spacing depth items
  | [], _ => rfl
  | [v], depth => by
    rw [documentItems, documentItems, writeItems, writeItems, write_document h]
  | v :: w :: rest, depth => by
    have hne : documentItems number (w :: rest) ≠ [] := List.cons_ne_nil _ _
    rw [documentItems, Json.writeItems_cons _ _ _ hne, write_document h,
      writeItems_document h (w :: rest), Json.writeItems_cons _ _ _ (List.cons_ne_nil w rest)]

theorem writeFields_document (h : ∀ depth n, write spacing depth (number n) = numberText n) :
    ∀ (fields : List (String × Value)) (depth : Nat),
      writeFields spacing depth (documentFields number fields) = writeFields spacing depth fields
  | [], _ => rfl
  | [(name, v)], depth => by
    rw [documentFields, documentFields, writeFields, writeFields, write_document h]
  | (name, v) :: field :: rest, depth => by
    have hne : documentFields number (field :: rest) ≠ [] := List.cons_ne_nil _ _
    rw [documentFields, Json.writeFields_cons _ _ _ _ hne, write_document h,
      writeFields_document h (field :: rest),
      Json.writeFields_cons _ _ _ _ (List.cons_ne_nil field rest)]

end

/-! ## What is read back -/

/-- The value that a document has in place of a value. -/
def normal (v : Value) : Value := v.document Number.normal

/-- The value that is read where a value was written. -/
def reread (v : Value) : Value := v.document Number.reread

theorem same_reread_normal {v : Value} (h : v.NamesDistinct) : v.reread.same v.normal = true :=
  same_document Number.same_reread_normal h

theorem write_reread (spacing : Spacing) (depth : Nat) (v : Value) :
    write spacing depth v.reread = write spacing depth v :=
  write_document (Number.write_reread spacing) v depth

end Value

end StateTree
