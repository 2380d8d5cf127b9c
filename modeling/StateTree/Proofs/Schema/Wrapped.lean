import StateTree.Proofs.Typing

/-
  Asking an entry for its fields. A shape around an entry changes at most whether the type of the
  entry is required, so the fields stay what they are. There is one exception: an empty record has
  the type of a plain object, and it is told from other plain objects by a look at the entry
  itself, where a shape stands in the way. So entries are seen through any number of shapes, but
  for empty records (`shapeOf_wrapped`).
-/

namespace StateTree

namespace Config

/-- An entry within shapes, which are required or not, from the outermost to the innermost one. -/
def wrapped (flags : List Bool) (config : Config) : Config :=
  flags.foldr (fun required inner => .shape inner required) config

end Config

/-- The kind of records with these fields, perhaps with more. -/
def Kind.HasFields (fields : Fields Schema) (kind : Kind) : Prop :=
  kind = .shapeOf fields ∨ kind = .exactShapeOf fields

namespace Inference

open Config

variable {inference : Inference} {config : Config} {fields : Fields Schema} {d : Declaration}

/-! ## Shapes around an entry -/

theorem kind_wrapped (inference : Inference) (flags : List Bool) (config : Config) :
    (inference.typeOf (wrapped flags config)).map (·.kind) =
      (inference.typeOf config).map (·.kind) := by
  induction flags with
  | nil => rfl
  | cons required flags ih =>
    rw [← ih, wrapped, List.foldr_cons, typeOf, ← wrapped]
    cases inference.typeOf (wrapped flags config) with
    | error e => rfl
    | ok t =>
      refine congrArg Except.ok ?_
      split <;> rfl

theorem typeOf_wrapped_required {t : Schema} (h : inference.typeOf config = .ok t)
    (ht : t.required = true) (flags : List Bool) :
    inference.typeOf (wrapped flags config) = .ok t := by
  induction flags with
  | nil => exact h
  | cons required flags ih =>
    have hsame : t.asRequired = t := by
      obtain ⟨kind, required, options⟩ := t
      cases ht
      rfl
    rw [wrapped, List.foldr_cons, typeOf, ← wrapped, ih]
    refine congrArg Except.ok ?_
    rw [hsame, ite_self]

theorem isEmptyRecord_wrapped (required : Bool) (flags : List Bool) (config : Config) :
    (wrapped (required :: flags) config).isEmptyRecord = false := rfl

/-! ## The fields of an entry -/

theorem recordFields_eq_ok :
    inference.recordFields config = .ok fields ↔
      ∃ kind, (inference.typeOf config).map (·.kind) = .ok kind ∧
        (kind.HasFields fields ∨
          kind = .primitive .object ∧ config.isEmptyRecord = true ∧ fields = []) := by
  rw [recordFields]
  cases inference.typeOf config with
  | error e => simp [Except.map, bind, Except.bind]
  | ok t =>
    simp only [Except.map, Except.ok.injEq, exists_eq_left', bind, Except.bind]
    cases t.kind with
    | shapeOf fs => simp [Kind.HasFields, pure, Except.pure]
    | exactShapeOf fs => simp [Kind.HasFields, pure, Except.pure]
    | primitive p =>
      cases p with
      | object => cases config.isEmptyRecord <;> simp [Kind.HasFields, pure, Except.pure, eq_comm]
      | _ => simp [Kind.HasFields]
    | _ => simp [Kind.HasFields]

/-- Nothing else than a kind without parts is inferred from an empty record. -/
theorem kind_of_isEmptyRecord (inference : Inference) (h : config.isEmptyRecord = true) :
    ∃ p, (inference.typeOf config).map (·.kind) = .ok (.primitive p) := by
  cases config with
  | record fields =>
    cases fields with
    | nil => exact ⟨.object, by rw [typeOf]; rfl⟩
    | cons field rest => cases h
  | literal v =>
    obtain rfl : v = .object [] := by
      cases v with
      | object fields =>
        cases fields with
        | nil => rfl
        | cons field rest => cases h
      | _ => cases h
    rw [typeOf, typeOfValue, ofValue?]
    by_cases hel : inference.isElement (.object []) = true
    · exact ⟨.element, by rw [if_pos hel]; rfl⟩
    · exact ⟨.object, by rw [if_neg hel]; rfl⟩
  | _ => cases h

theorem recordFields_wrapped (flags : List Bool) :
    inference.recordFields (wrapped flags config) = .ok fields ↔
      inference.recordFields config = .ok fields ∧
        (flags = [] ∨ config.isEmptyRecord = false) := by
  cases flags with
  | nil => simp [wrapped]
  | cons required flags =>
    rw [recordFields_eq_ok, recordFields_eq_ok, kind_wrapped, isEmptyRecord_wrapped]
    cases hempty : config.isEmptyRecord with
    | false => simp
    | true =>
      obtain ⟨p, hp⟩ := kind_of_isEmptyRecord inference hempty
      simp [hp, Kind.HasFields]

theorem typeOf_emptyRecord (inference : Inference) :
    inference.typeOf (.record []) = .ok (Schema.primitive .object).asRequired := by
  rw [typeOf]
  rfl

/-- Behind a shape, an empty record counts as any other plain object. -/
theorem recordFields_wrapped_empty (inference : Inference) (required : Bool) (flags : List Bool) :
    inference.recordFields (wrapped (required :: flags) (.record [])) =
      .error (.notARecord "required object") := by
  rw [recordFields, typeOf_wrapped_required (typeOf_emptyRecord inference) rfl]
  rfl

/-- The fields of a record are those that it lists, also if it lists none. -/
theorem recordFields_record {entries : List (String × Config)}
    (h : inference.fieldTypesOf entries = .ok fields) :
    inference.recordFields (.record entries) = .ok fields := by
  cases entries with
  | nil =>
    rw [fieldTypesOf] at h
    cases Except.ok.inj h
    rw [recordFields, typeOf_emptyRecord]
    rfl
  | cons entry rest =>
    have hnone : inference.ofConfig? (.record (entry :: rest)) = none := rfl
    rw [recordFields, typeOf, hnone, h]
    rfl

/-! ## Shapes of the fields of an entry -/

theorem shapeOf_eq (inference : Inference) (config : Config) :
    inference.shapeOf config =
      (inference.recordFields config).map fun fields => .ofSchema (.shapeOf fields) := by
  rw [shapeOf]
  cases inference.recordFields config <;> rfl

theorem exactShapeOf_eq (inference : Inference) (config : Config) :
    inference.exactShapeOf config =
      (inference.recordFields config).map fun fields => .ofSchema (.exactShapeOf fields) := by
  rw [exactShapeOf]
  cases inference.recordFields config <;> rfl

theorem map_recordFields_wrapped (f : Fields Schema → Declaration) (flags : List Bool) :
    (inference.recordFields (wrapped flags config)).map f = .ok d ↔
      (inference.recordFields config).map f = .ok d ∧
        (flags = [] ∨ config.isEmptyRecord = false) := by
  have hmap : ∀ x : Except Error (Fields Schema),
      x.map f = .ok d ↔ ∃ fields, x = .ok fields ∧ f fields = d := fun x => by
    cases x <;> simp [Except.map]
  rw [hmap, hmap, ← exists_and_right]
  refine exists_congr fun fields => ?_
  rw [recordFields_wrapped]
  exact and_right_comm

/-- Shapes around an entry, whether they are required or not, make no difference to the shape that
is made of the fields of the entry, except that no shape can be made of an empty record any more.
So a record in which no node stands can be within any number of shapes, unless it is empty. -/
theorem shapeOf_wrapped (inference : Inference) (flags : List Bool) :
    (∀ config d, inference.shapeOf (wrapped flags config) = .ok d ↔
      inference.shapeOf config = .ok d ∧ (flags = [] ∨ config.isEmptyRecord = false)) ∧
    (∀ config d, inference.exactShapeOf (wrapped flags config) = .ok d ↔
      inference.exactShapeOf config = .ok d ∧ (flags = [] ∨ config.isEmptyRecord = false)) ∧
    ∀ fields, (Config.record fields).NodeFree → flags = [] ∨ fields ≠ [] →
      ∃ types, inference.fieldTypesOf fields = .ok types ∧
        inference.shapeOf (wrapped flags (.record fields)) = .ok (.ofSchema (.shapeOf types)) ∧
        inference.exactShapeOf (wrapped flags (.record fields)) =
          .ok (.ofSchema (.exactShapeOf types)) := by
  refine ⟨fun config d => ?_, fun config d => ?_, fun fields hfree hseen => ?_⟩
  · rw [shapeOf_eq, shapeOf_eq, map_recordFields_wrapped]
  · rw [exactShapeOf_eq, exactShapeOf_eq, map_recordFields_wrapped]
  · have hfields : ∀ id, .node id ∉ fieldEntries fields := fun id hm =>
      hfree id (by rw [entries]; exact List.mem_cons_of_mem _ hm)
    obtain ⟨types, htypes⟩ := exists_fieldTypesOf inference hfields
    have hseen' : flags = [] ∨ (Config.record fields).isEmptyRecord = false :=
      hseen.imp_right fun hne => by
        cases fields with
        | nil => exact absurd rfl hne
        | cons field rest => rfl
    have hwrapped := (recordFields_wrapped flags).2 ⟨recordFields_record htypes, hseen'⟩
    refine ⟨types, htypes, ?_, ?_⟩
    · rw [shapeOf_eq, hwrapped]
      rfl
    · rw [exactShapeOf_eq, hwrapped]
      rfl

theorem shapeOf_wrapped_switch :
    (Config.record [("on", .literal (.bool true))]).NodeFree ∧
      ∃ types, standard.fieldTypesOf [("on", .literal (.bool true))] = .ok types ∧
        standard.shapeOf (.shape (.shape (.record [("on", .literal (.bool true))]) false) true) =
          .ok (.ofSchema (.shapeOf types)) ∧
        standard.exactShapeOf
            (.shape (.shape (.record [("on", .literal (.bool true))]) false) true) =
          .ok (.ofSchema (.exactShapeOf types)) := by
  have hfree : (Config.record [("on", .literal (.bool true))]).NodeFree := by
    simp [NodeFree, entries, fieldEntries]
  exact ⟨hfree, (shapeOf_wrapped standard [true, false]).2.2 _ hfree
    (Or.inr (List.cons_ne_nil _ _))⟩

/-- A shape of no fields can be made of an empty record, but not of the same record in a shape. -/
theorem shape_hides_emptyRecord :
    standard.shapeOf (.record []) = .ok (.ofSchema (.shapeOf [])) ∧
      standard.shapeOf (.shape (.record []) false) = .error (.notARecord "required object") ∧
      standard.exactShapeOf (.record []) = .ok (.ofSchema (.exactShapeOf [])) ∧
      standard.exactShapeOf (.shape (.record []) false) =
        .error (.notARecord "required object") := by
  have hbare : standard.recordFields (.record []) = .ok [] :=
    recordFields_record (by rw [fieldTypesOf])
  have hshape : standard.recordFields (.shape (.record []) false) =
      .error (.notARecord "required object") := recordFields_wrapped_empty standard false []
  rw [shapeOf_eq, shapeOf_eq, exactShapeOf_eq, exactShapeOf_eq, hbare, hshape]
  exact ⟨rfl, rfl, rfl, rfl⟩

end Inference

end StateTree
