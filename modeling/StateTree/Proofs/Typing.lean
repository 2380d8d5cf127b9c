import StateTree.Proofs.Compile.Layout
import StateTree.Proofs.Schema.Distinct
import StateTree.Typing

/-
  The types of entries. An entry has a type exactly if there is no node in it, however deep, and
  nothing else can be wrong with it (`typeOf_total`). In particular, the union that the items of an
  array may need is never one of nothing, at any depth (`exists_sequenceType`). The type of a record
  has behind each name the type of the entry behind it (`get?_of_fieldTypesOf`).
-/

namespace StateTree

namespace Config

/-- No entry is a node that is built already. -/
def NodeFree (config : Config) : Prop := ∀ id, .node id ∉ config.entries

end Config

namespace Inference

open Config

variable {inference : Inference}

/-! ## Records -/

theorem forall₂_of_fieldTypesOf {fields : List (String × Config)} {types : Fields Schema}
    (h : inference.fieldTypesOf fields = .ok types) :
    List.Forall₂ (fun field t => field.1 = t.1 ∧ inference.typeOf field.2 = .ok t.2)
      fields types := by
  induction fields generalizing types with
  | nil =>
    rw [fieldTypesOf] at h
    cases Except.ok.inj h
    exact .nil
  | cons field rest ih =>
    obtain ⟨name, entry⟩ := field
    rw [fieldTypesOf] at h
    obtain ⟨t, ht, h⟩ := bind_eq_ok.1 h
    obtain ⟨ts, hts, h⟩ := bind_eq_ok.1 h
    cases Except.ok.inj h
    exact .cons ⟨rfl, ht⟩ (ih hts)

theorem names_of_fieldTypesOf {fields : List (String × Config)} {types : Fields Schema}
    (h : inference.fieldTypesOf fields = .ok types) : types.names = Fields.names fields := by
  have hall := forall₂_of_fieldTypesOf h
  clear h
  induction hall with
  | nil => rfl
  | cons hp _ ih => exact congrArg₂ List.cons hp.1.symm ih

/-- A name stands for an entry and its type, or for neither. -/
theorem get?_cases_of_fieldTypesOf {fields : List (String × Config)} {types : Fields Schema}
    (h : inference.fieldTypesOf fields = .ok types) (name : String) :
    (∃ entry t, Fields.get? fields name = some entry ∧ types.get? name = some t ∧
        inference.typeOf entry = .ok t) ∨
      (Fields.get? fields name = none ∧ types.get? name = none) := by
  refine (Fields.get?_zip (names_of_fieldTypesOf h).symm name).imp_left ?_
  rintro ⟨entry, t, hentry, ht, hm⟩
  exact ⟨entry, t, hentry, ht, ((List.forall₂_iff_zip.1 (forall₂_of_fieldTypesOf h)).2 hm).2⟩

/-- The type behind a name is the type of the entry behind it. -/
theorem get?_of_fieldTypesOf {fields : List (String × Config)} {types : Fields Schema}
    (h : inference.fieldTypesOf fields = .ok types) {name : String} {entry : Config}
    (hentry : Fields.get? fields name = some entry) :
    ∃ t, types.get? name = some t ∧ inference.typeOf entry = .ok t := by
  rcases get?_cases_of_fieldTypesOf h name with ⟨entry', t, hentry', ht⟩ | ⟨hnone, -⟩
  · cases Option.some.inj (hentry.symm.trans hentry')
    exact ⟨t, ht⟩
  · simp [hentry] at hnone

/-- Behind every name of the type of a record there is an entry. -/
theorem exists_get?_of_fieldTypesOf {fields : List (String × Config)} {types : Fields Schema}
    (h : inference.fieldTypesOf fields = .ok types) {name : String} {t : Schema}
    (ht : types.get? name = some t) :
    ∃ entry, Fields.get? fields name = some entry ∧ inference.typeOf entry = .ok t := by
  rcases get?_cases_of_fieldTypesOf h name with ⟨entry, t', hentry, ht', htype⟩ | ⟨-, hnone⟩
  · cases Option.some.inj (ht.symm.trans ht')
    exact ⟨entry, hentry, htype⟩
  · simp [ht] at hnone

/-- A record that has fields is typed by them. -/
theorem fieldTypesOf_of_record {fields : List (String × Config)} {t : Schema} (hne : fields ≠ [])
    (h : inference.typeOf (.record fields) = .ok t) :
    ∃ types, inference.fieldTypesOf fields = .ok types ∧ t = .exactShapeOf types := by
  obtain ⟨field, rest, rfl⟩ := List.exists_cons_of_ne_nil hne
  rw [typeOf, show inference.ofConfig? (.record (field :: rest)) = none from rfl] at h
  obtain ⟨types, htypes, h⟩ := bind_eq_ok.1 h
  exact ⟨types, htypes, (Except.ok.inj h).symm⟩

/-! ## Sequences -/

theorem typesOf_eq_ok {items : List Config} {types : List Schema} :
    inference.typesOf items = .ok types ↔
      List.Forall₂ (fun item t => inference.typeOf item = .ok t) items types := by
  induction items generalizing types with
  | nil => rw [typesOf, List.forall₂_nil_left_iff, Except.ok.injEq, eq_comm]
  | cons item rest ih =>
    rw [typesOf, List.forall₂_cons_left_iff]
    constructor
    · intro h
      obtain ⟨t, ht, h⟩ := bind_eq_ok.1 h
      obtain ⟨ts, hts, h⟩ := bind_eq_ok.1 h
      cases Except.ok.inj h
      exact ⟨t, ts, ht, ih.1 hts, rfl⟩
    · rintro ⟨t, ts, ht, hts, rfl⟩
      exact bind_eq_ok.2 ⟨t, ht, bind_eq_ok.2 ⟨ts, ih.2 hts, rfl⟩⟩

/-- Items are resolved from the left, up to the first one that has no type. -/
theorem typesOf_of_first_error {front back : List Config} {item : Config} {e : Error}
    (hfront : ∀ other ∈ front, ∃ t, inference.typeOf other = .ok t)
    (h : inference.typeOf item = .error e) :
    inference.typesOf (front ++ item :: back) = .error e := by
  induction front with
  | nil =>
    rw [List.nil_append, typesOf, h]
    rfl
  | cons other rest ih =>
    obtain ⟨⟨t, ht⟩, hrest⟩ := List.forall_mem_cons.1 hfront
    rw [List.cons_append, typesOf, ht, ih hrest]
    rfl

/-! ## Arrays -/

/-- An array is typed by what its items have in common. -/
theorem sequenceType_eq_ok {types : List Schema} {t : Schema} :
    sequenceType types = .ok t ↔
      ∃ item, Schema.unify types = .ok item ∧ t = (Schema.arrayOf item).asRequired := by
  rw [sequenceType, bind_eq_ok]
  exact exists_congr fun item => and_congr_right fun _ =>
    ⟨fun h => (Except.ok.inj h).symm, fun h => h ▸ rfl⟩

/-- Items of any types make an array. -/
theorem exists_sequenceType (types : List Schema) : ∃ t, sequenceType types = .ok t := by
  obtain ⟨item, hitem⟩ := Schema.exists_unify types
  exact ⟨_, sequenceType_eq_ok.2 ⟨item, hitem, rfl⟩⟩

/-! ## Literals -/

/-- What has named parts is of the type that is inferred, or else is typed by its parts. -/
theorem typed_cases {d? : Option Declaration} {x : Except Error (Fields Schema)} {t : Schema}
    (h : (match d? with
      | some d => .ok d.schema
      | none => do return .exactShapeOf (← x) : Except Error Schema) = .ok t) :
    (∃ d, d? = some d ∧ t = d.schema) ∨
      (d? = none ∧ ∃ types, x = .ok types ∧ t = .exactShapeOf types) := by
  cases d? with
  | some d => exact Or.inl ⟨d, rfl, (Except.ok.inj h).symm⟩
  | none =>
    obtain ⟨types, htypes, h⟩ := bind_eq_ok.1 h
    exact Or.inr ⟨rfl, types, htypes, (Except.ok.inj h).symm⟩

/-- Values are typed like the entries that hold them. -/
theorem fieldTypesOf_literal (inference : Inference) (vs : List (String × Value)) :
    inference.fieldTypesOf (vs.map fun v => (v.1, .literal v.2)) = inference.typesOfFields vs := by
  induction vs with
  | nil => rw [List.map_nil, fieldTypesOf, typesOfFields]
  | cons v rest ih =>
    obtain ⟨name, v⟩ := v
    rw [List.map_cons, fieldTypesOf, typeOf, typesOfFields, ih]

theorem typesOf_literal (inference : Inference) (vs : List Value) :
    inference.typesOf (vs.map .literal) = inference.typesOfItems vs := by
  induction vs with
  | nil => rw [List.map_nil, typesOf, typesOfItems]
  | cons v rest ih => rw [List.map_cons, typesOf, typeOf, typesOfItems, ih]

theorem typesOfItems_eq_ok {vs : List Value} {types : List Schema} :
    inference.typesOfItems vs = .ok types ↔
      List.Forall₂ (fun v t => inference.typeOfValue v = .ok t) vs types := by
  rw [← typesOf_literal, typesOf_eq_ok, List.forall₂_map_left_iff]
  simp only [typeOf]

theorem names_of_typesOfFields {vs : List (String × Value)} {types : Fields Schema}
    (h : inference.typesOfFields vs = .ok types) : types.names = Fields.names vs := by
  rw [← fieldTypesOf_literal] at h
  rw [names_of_fieldTypesOf h, Fields.names, List.map_map]
  rfl

/-- Behind every name of the type of an object there is a value. -/
theorem exists_get?_of_typesOfFields {vs : List (String × Value)} {types : Fields Schema}
    (h : inference.typesOfFields vs = .ok types) {name : String} {t : Schema}
    (ht : types.get? name = some t) :
    ∃ v, Fields.get? vs name = some v ∧ inference.typeOfValue v = .ok t := by
  rw [← fieldTypesOf_literal] at h
  obtain ⟨entry, hentry, htype⟩ := exists_get?_of_fieldTypesOf h ht
  rw [← Fields.mapValues, Fields.get?_mapValues, Option.map_eq_some_iff] at hentry
  obtain ⟨v, hv, rfl⟩ := hentry
  exact ⟨v, hv, by rw [← htype, typeOf]⟩

mutual

/-- Every literal has a type. -/
theorem exists_typeOfValue (inference : Inference) : ∀ v : Value,
    ∃ t, inference.typeOfValue v = .ok t
  | .array items => by
    obtain ⟨types, htypes⟩ := exists_typesOfItems inference items
    rw [typeOfValue, htypes]
    exact exists_sequenceType types
  | .object fields => by
    obtain ⟨types, htypes⟩ := exists_typesOfFields inference fields
    rw [typeOfValue, htypes]
    cases inference.ofValue? (.object fields) with
    | some d => exact ⟨_, rfl⟩
    | none => exact ⟨_, rfl⟩
  | .instanceOf className fields => by
    obtain ⟨types, htypes⟩ := exists_typesOfFields inference fields
    rw [typeOfValue, htypes]
    cases inference.ofValue? (.instanceOf className fields) with
    | some d => exact ⟨_, rfl⟩
    | none => exact ⟨_, rfl⟩
  | .null | .bool _ | .number _ | .string _ | .symbol _ | .function _ => by
    unfold typeOfValue
    exact ⟨_, rfl⟩

theorem exists_typesOfItems (inference : Inference) : ∀ items : List Value,
    ∃ types, inference.typesOfItems items = .ok types
  | [] => ⟨[], by rw [typesOfItems]⟩
  | v :: rest => by
    obtain ⟨t, ht⟩ := exists_typeOfValue inference v
    obtain ⟨ts, hts⟩ := exists_typesOfItems inference rest
    rw [typesOfItems, ht, hts]
    exact ⟨_, rfl⟩

theorem exists_typesOfFields (inference : Inference) : ∀ fields : List (String × Value),
    ∃ types, inference.typesOfFields fields = .ok types
  | [] => ⟨[], by rw [typesOfFields]⟩
  | (name, v) :: rest => by
    obtain ⟨t, ht⟩ := exists_typeOfValue inference v
    obtain ⟨ts, hts⟩ := exists_typesOfFields inference rest
    rw [typesOfFields, ht, hts]
    exact ⟨_, rfl⟩

end

/-! ## Entries without nodes -/

mutual

theorem exists_typeOf (inference : Inference) : ∀ {config : Config}, config.NodeFree →
    ∃ t, inference.typeOf config = .ok t
  | .node id, h => absurd (by simp [entries]) (h id)
  | .pending template, _ => ⟨template.schema, by rw [typeOf]⟩
  | .scalar d, _ => ⟨d.schema, by rw [typeOf]⟩
  | .shape inner required, h => by
    have hinner : inner.NodeFree := fun id hm => h id (entries_inner inner required hm)
    obtain ⟨t, ht⟩ := exists_typeOf inference hinner
    rw [typeOf, ht]
    exact ⟨_, rfl⟩
  | .validates path, _ => ⟨.marker, by rw [typeOf]⟩
  | .sequence items, h => by
    have hitems : ∀ id, .node id ∉ itemEntries items := fun id hm =>
      h id (by rw [entries]; exact List.mem_cons_of_mem _ hm)
    obtain ⟨ts, hts⟩ := exists_typesOf inference hitems
    rw [typeOf, hts]
    exact exists_sequenceType ts
  | .record fields, h => by
    have hfields : ∀ id, .node id ∉ fieldEntries fields := fun id hm =>
      h id (by rw [entries]; exact List.mem_cons_of_mem _ hm)
    obtain ⟨ts, hts⟩ := exists_fieldTypesOf inference hfields
    rw [typeOf, hts]
    cases inference.ofConfig? (.record fields) with
    | some d => exact ⟨_, rfl⟩
    | none => exact ⟨_, rfl⟩
  | .literal v, _ => by
    rw [typeOf]
    exact exists_typeOfValue inference v

theorem exists_typesOf (inference : Inference) : ∀ {items : List Config},
    (∀ id, .node id ∉ itemEntries items) →
      ∃ ts, inference.typesOf items = .ok ts
  | [], _ => ⟨[], by rw [typesOf]⟩
  | item :: rest, h => by
    rw [itemEntries] at h
    obtain ⟨t, ht⟩ := exists_typeOf inference fun id hm => h id (List.mem_append_left _ hm)
    obtain ⟨ts, hts⟩ :=
      exists_typesOf inference fun id hm => h id (List.mem_append_right _ hm)
    rw [typesOf, ht, hts]
    exact ⟨_, rfl⟩

theorem exists_fieldTypesOf (inference : Inference) : ∀ {fields : List (String × Config)},
    (∀ id, .node id ∉ fieldEntries fields) →
      ∃ ts, inference.fieldTypesOf fields = .ok ts
  | [], _ => ⟨[], by rw [fieldTypesOf]⟩
  | (name, entry) :: rest, h => by
    rw [fieldEntries] at h
    obtain ⟨t, ht⟩ := exists_typeOf inference fun id hm => h id (List.mem_append_left _ hm)
    obtain ⟨ts, hts⟩ :=
      exists_fieldTypesOf inference fun id hm => h id (List.mem_append_right _ hm)
    rw [fieldTypesOf, ht, hts]
    exact ⟨_, rfl⟩

end

/-! ## Entries with nodes -/

mutual

/-- Wherever in an entry a node stands, it is what the entry is refused for. -/
theorem typeOf_of_node (inference : Inference) {id : NodeId} : ∀ {config : Config},
    .node id ∈ config.entries → inference.typeOf config = .error .nodeInType
  | .node _, _ => by rw [typeOf]
  | .shape inner required, h => by
    rw [entries] at h
    have hinner : .node id ∈ inner.entries := by simpa using h
    rw [typeOf, typeOf_of_node inference hinner]
    rfl
  | .sequence items, h => by
    rw [entries] at h
    have hitems : .node id ∈ itemEntries items := by simpa using h
    rw [typeOf, typesOf_of_node inference hitems]
    rfl
  | .record fields, h => by
    rw [entries] at h
    have hfields : .node id ∈ fieldEntries fields := by simpa using h
    -- A record that is inferred has no fields, so no node is passed over.
    have hnone : inference.ofConfig? (.record fields) = none := by
      cases fields with
      | nil => simp [fieldEntries] at hfields
      | cons field rest => rfl
    rw [typeOf, hnone, fieldTypesOf_of_node inference hfields]
    rfl
  | .pending _, h | .scalar _, h | .validates _, h | .literal _, h => by simp [entries] at h

theorem typesOf_of_node (inference : Inference) {id : NodeId} : ∀ {items : List Config},
    .node id ∈ itemEntries items → inference.typesOf items = .error .nodeInType
  | [], h => by simp [itemEntries] at h
  | item :: rest, h => by
    rw [itemEntries, List.mem_append] at h
    by_cases hitem : ∃ id', .node id' ∈ item.entries
    · obtain ⟨id', hitem⟩ := hitem
      rw [typesOf, typeOf_of_node inference hitem]
      rfl
    · have hrest : .node id ∈ itemEntries rest := h.resolve_left fun hm => hitem ⟨id, hm⟩
      obtain ⟨t, ht⟩ := exists_typeOf inference fun id' hm => hitem ⟨id', hm⟩
      rw [typesOf, ht, typesOf_of_node inference hrest]
      rfl

theorem fieldTypesOf_of_node (inference : Inference) {id : NodeId} :
    ∀ {fields : List (String × Config)}, .node id ∈ fieldEntries fields →
      inference.fieldTypesOf fields = .error .nodeInType
  | [], h => by simp [fieldEntries] at h
  | (name, entry) :: rest, h => by
    rw [fieldEntries, List.mem_append] at h
    by_cases hentry : ∃ id', .node id' ∈ entry.entries
    · obtain ⟨id', hentry⟩ := hentry
      rw [fieldTypesOf, typeOf_of_node inference hentry]
      rfl
    · have hrest : .node id ∈ fieldEntries rest := h.resolve_left fun hm => hentry ⟨id, hm⟩
      obtain ⟨t, ht⟩ := exists_typeOf inference fun id' hm => hentry ⟨id', hm⟩
      rw [fieldTypesOf, ht, fieldTypesOf_of_node inference hrest]
      rfl

end

/-- An entry has no type exactly if a node stands somewhere in it, and this is the only reason that
is ever given. All other entries have one. -/
theorem typeOf_total (inference : Inference) (config : Config) :
    (∀ e, inference.typeOf config = .error e ↔
      e = .nodeInType ∧ ∃ id, .node id ∈ config.entries) ∧
    ((∃ t, inference.typeOf config = .ok t) ↔ config.NodeFree) := by
  by_cases hnode : ∃ id, .node id ∈ config.entries
  · obtain ⟨id, hm⟩ := hnode
    rw [typeOf_of_node inference hm]
    refine ⟨fun e => ⟨fun he => ⟨(Except.error.inj he).symm, id, hm⟩, fun he => he.1 ▸ rfl⟩, ?_⟩
    exact ⟨fun ⟨_, ht⟩ => by simp at ht, fun hfree => absurd hm (hfree id)⟩
  · have hfree : config.NodeFree := fun id hm => hnode ⟨id, hm⟩
    obtain ⟨t, ht⟩ := exists_typeOf inference hfree
    rw [ht]
    exact ⟨fun e => ⟨fun he => by simp at he, fun he => absurd he.2 hnode⟩,
      fun _ => hfree, fun _ => ⟨t, rfl⟩⟩

end Inference

end StateTree
