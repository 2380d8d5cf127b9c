import StateTree.Proofs.Compile.Building
import StateTree.Proofs.Compile.Literal
import StateTree.Proofs.Typing

/-
  The nodes of an entry are of its type. The compiler and the typing of entries go through a
  configuration in different orders: arrays are typed by their items before anything is inferred,
  while the compiler infers first, or takes containers apart first. `Layout.HasType` says of one
  level what the type has to do with the layout. Main statement: an entry without nodes that can be
  compiled has a type, and the tree compiled from it agrees with that type at every depth
  (`compile_agrees`).
-/

namespace StateTree

/-- The same type, perhaps made required. -/
structure Schema.Strengthens (t u : Schema) : Prop where
  kind_eq : t.kind = u.kind
  options_eq : t.options = u.options
  required_of : u.required = true → t.required = true

/-- An array type that is required. -/
def Schema.IsRequiredArray (t : Schema) : Prop :=
  (∃ element, t.kind = .arrayOf element) ∧ t.required = true

theorem Schema.Strengthens.refl (t : Schema) : t.Strengthens t := ⟨rfl, rfl, id⟩

theorem Schema.Strengthens.asRequired {t u : Schema} (h : t.Strengthens u) :
    t.asRequired.Strengthens u := ⟨h.kind_eq, h.options_eq, fun _ => rfl⟩

theorem Inference.isRequiredArray_of_sequenceType {items : List Schema} {t : Schema}
    (h : sequenceType items = .ok t) : t.IsRequiredArray := by
  obtain ⟨item, -, rfl⟩ := sequenceType_eq_ok.1 h
  exact ⟨⟨item, rfl⟩, rfl⟩

namespace Compiler

open Config Store

variable {c : Compiler} {s s' : Store} {config : Config} {id : NodeId}

/-! ## Agreement -/

/-- The node and all nodes below it are of this type. -/
inductive Agrees (c : Compiler) (s : Store) : NodeId → Schema → Prop
  /-- A scalar has the declared kind and options. It may be required without being declared so,
  but not the other way round. -/
  | scalar {id : NodeId} {slot : Slot} {t : Schema} (hn : s.node? id = some (.scalar slot))
      (ht : t.Strengthens slot.declaration.schema) : Agrees c s id t
  /-- A literal array that is kept whole is declared as any array. -/
  | array {id : NodeId} {vs : List Value} {t : Schema}
      (hn : s.node? id = some (.scalar (.ofDeclaration (.settled .array (.array vs)))))
      (ht : t.IsRequiredArray) : Agrees c s id t
  | list {id : NodeId} {ids : List NodeId} {t : Schema} (hn : s.node? id = some (.list ids))
      (ht : t.IsRequiredArray) : Agrees c s id t
  | composite {id : NodeId} {nodes : Fields NodeId} {types : Fields Schema} {t : Schema}
      (hn : s.node? id = some (.composite nodes)) (ht : t.kind = .exactShapeOf types)
      (hnames : types.names.Perm nodes.names)
      (hdata : ∀ name child u, nodes.get? name = some child → s.isValidation child = false →
        types.get? name = some u → Agrees c s child u)
      (hcheck : ∀ name child, nodes.get? name = some child → s.isValidation child = true →
        types.get? name = some .marker) : Agrees c s id t
  /-- A record without fields that is taken apart. -/
  | emptyComposite {id : NodeId} (hc : c.settings.containers = .structural)
      (hn : s.node? id = some (.composite [])) :
      Agrees c s id (Schema.primitive .object).asRequired

/-! ## Layouts and types -/

/-- What the type of an entry has to do with the layout of the entry. -/
inductive HasType (c : Compiler) : Layout → Schema → Prop
  | scalar {d : Declaration} {t : Schema} (ht : t.Strengthens d.schema) : HasType c (.scalar d) t
  | array {vs : List Value} {t : Schema} (ht : t.IsRequiredArray) :
      HasType c (.scalar (.settled .array (.array vs))) t
  | list {items : List Config} {t : Schema} (ht : t.IsRequiredArray) : HasType c (.list items) t
  | record {fields : List (String × Config)} {types : Fields Schema} {t : Schema}
      (ht : t.kind = .exactShapeOf types) (hf : c.inference.fieldTypesOf fields = .ok types) :
      HasType c (.record fields) t
  | emptyRecord (hc : c.settings.containers = .structural) :
      HasType c (.record []) (Schema.primitive .object).asRequired
  /-- Nothing is built from these. -/
  | incomplete {t : Schema} : HasType c .incomplete t
  | detached {path : Path} {t : Schema} : HasType c (.detached path) t

/-- A shape around an entry may make its type required. -/
theorem HasType.asRequired {l : Layout} {t : Schema} (h : HasType c l t) :
    HasType c l t.asRequired := by
  cases h with
  | scalar ht => exact .scalar ht.asRequired
  | array ht => exact .array ⟨ht.1, rfl⟩
  | list ht => exact .list ⟨ht.1, rfl⟩
  | record ht hf => exact .record ht hf
  | emptyRecord hc => exact .emptyRecord hc
  | incomplete => exact .incomplete
  | detached => exact .detached

/-- The policy for literal containers matters to arrays and empty objects only. -/
theorem scalarOfValue?_eq {v : Value} (harray : ∀ items, v ≠ .array items)
    (hempty : v ≠ .object []) :
    c.scalarOfValue? v = c.inference.ofValue? v := by
  unfold scalarOfValue?
  split
  · next items _ => exact absurd rfl (harray items)
  · exact absurd rfl hempty
  · rfl

theorem scalarOfValue?_whole (hc : c.settings.containers = .whole) (v : Value) :
    c.scalarOfValue? v = c.inference.ofValue? v := by
  unfold scalarOfValue?
  rw [hc]

theorem scalarOfValue?_array (hc : c.settings.containers = .structural) (items : List Value) :
    c.scalarOfValue? (.array items) = none := by
  unfold scalarOfValue?
  rw [hc]

theorem scalarOfValue?_emptyObject (hc : c.settings.containers = .structural) :
    c.scalarOfValue? (.object []) = none := by
  unfold scalarOfValue?
  rw [hc]

/-- Fields of a value that is taken apart are typed one by one. -/
theorem hasType_fields {fields : List (String × Value)} {types : Fields Schema}
    (h : c.inference.typesOfFields fields = .ok types) :
    HasType c (.record (fields.map fun field => (field.1, .literal field.2)))
      (.exactShapeOf types) :=
  .record rfl ((c.inference.fieldTypesOf_literal fields).trans h)

theorem hasType_literal (harray : ∀ items, c.isElement (.array items) = false)
    (hempty : c.isElement (.object []) = false) {v : Value} {t : Schema}
    (h : c.inference.typeOfValue v = .ok t) : HasType c (c.layout (.literal v)) t := by
  rw [layout]
  cases v with
  | array items =>
    rw [Inference.typeOfValue] at h
    obtain ⟨types, -, h⟩ := bind_eq_ok.1 h
    have ht := Inference.isRequiredArray_of_sequenceType h
    cases hc : c.settings.containers with
    | whole =>
      have hd : c.scalarOfValue? (.array items) = some (.settled .array (.array items)) := by
        have helement : c.inference.isElement (.array items) = false := harray items
        rw [scalarOfValue?_whole hc, Inference.ofValue?, helement]
        rfl
      rw [hd]
      exact .array ht
    | structural =>
      rw [scalarOfValue?_array hc]
      exact .list ht
  | object fields =>
    rw [Inference.typeOfValue] at h
    by_cases hfields : fields = []
    · subst hfields
      have helement : c.inference.isElement (.object []) = false := hempty
      have hd : c.inference.ofValue? (.object []) = some (.settled .object (.object [])) := by
        rw [Inference.ofValue?, helement]
        rfl
      rw [hd] at h
      cases Except.ok.inj h
      cases hc : c.settings.containers with
      | whole =>
        rw [scalarOfValue?_whole hc, hd]
        exact .scalar (.refl _)
      | structural =>
        rw [scalarOfValue?_emptyObject hc]
        exact .emptyRecord hc
    · rw [scalarOfValue?_eq (by simp) (by simp [hfields])]
      rcases Inference.typed_cases h with ⟨d, hd, rfl⟩ | ⟨hnone, types, htypes, rfl⟩
      · rw [hd]
        exact .scalar (.refl _)
      · rw [hnone]
        exact hasType_fields htypes
  | instanceOf className fields =>
    rw [Inference.typeOfValue] at h
    rw [scalarOfValue?_eq (by simp) (by simp)]
    rcases Inference.typed_cases h with ⟨d, hd, rfl⟩ | ⟨hnone, types, htypes, rfl⟩
    · rw [hd]
      exact .scalar (.refl _)
    · rw [hnone]
      exact hasType_fields htypes
  | _ =>
    rw [Inference.typeOfValue] at h
    · cases Except.ok.inj h
      rw [scalarOfValue?_eq (by simp) (by simp)]
      exact .scalar (.refl _)
    all_goals simp

/-- The type of an entry is as its layout asks for. -/
theorem hasType_layout (harray : ∀ items, c.isElement (.array items) = false)
    (hempty : c.isElement (.object []) = false) : ∀ {config : Config} {t : Schema},
    c.inference.typeOf config = .ok t → HasType c (c.layout config) t
  | .node id, t, h => by simp [Inference.typeOf] at h
  | .pending template, t, _ => by
    rw [layout]
    exact .incomplete
  | .scalar d, t, h => by
    rw [Inference.typeOf] at h
    cases Except.ok.inj h
    rw [layout]
    split
    · exact .scalar (.refl _)
    · exact .incomplete
  | .shape inner required, t, h => by
    rw [Inference.typeOf] at h
    obtain ⟨u, hu, h⟩ := bind_eq_ok.1 h
    cases Except.ok.inj h
    have hinner := hasType_layout harray hempty hu
    rw [layout]
    split
    · exact hinner.asRequired
    · exact hinner
  | .validates path, t, _ => by
    rw [layout]
    exact .detached
  | .sequence items, t, h => by
    rw [Inference.typeOf] at h
    obtain ⟨ts, -, h⟩ := bind_eq_ok.1 h
    have ht := Inference.isRequiredArray_of_sequenceType h
    rw [layout]
    cases hd : c.scalarOf? (.sequence items) with
    | none => exact .list ht
    | some d =>
      have hi := ofConfig?_of_scalarOf? hd
      rw [Inference.ofConfig?, toLiteral?, Option.map_map] at hi
      obtain ⟨vs, -, rfl⟩ := Option.map_eq_some_iff.1 hi
      exact .array ht
  | .record fields, t, h => by
    rw [Inference.typeOf] at h
    rw [layout]
    cases hd : c.scalarOf? (.record fields) with
    | some d =>
      rw [ofConfig?_of_scalarOf? hd] at h
      cases Except.ok.inj h
      exact .scalar (.refl _)
    | none =>
      cases hi : c.inference.ofConfig? (.record fields) with
      | none =>
        simp only [hi] at h
        obtain ⟨types, hf, h⟩ := bind_eq_ok.1 h
        cases Except.ok.inj h
        exact .record rfl hf
      | some d =>
        simp only [hi] at h
        cases Except.ok.inj h
        -- Inference knows the record, so it has no fields, and the policy takes it apart.
        unfold scalarOf? at hd
        split at hd
        · next hc =>
          cases fields with
          | nil => exact Option.some.inj hi ▸ .emptyRecord hc.1
          | cons field rest => simp [Inference.ofConfig?] at hi
        · rw [hi] at hd
          simp at hd
  | .literal v, t, h => by
    rw [Inference.typeOf] at h
    exact hasType_literal harray hempty h

/-! ## What has been built -/

/-- The entry can be built somewhere. -/
def Builds (c : Compiler) (config : Config) : Prop :=
  ∃ path s built, c.build config path s = .ok built

theorem Builds.not_detached (h : Builds c config) (path : Path) :
    c.layout config ≠ .detached path := by
  intro hl
  obtain ⟨p, s, built, hb⟩ := h
  rw [build_eq, hl] at hb
  simp [assemble] at hb

/-- A record is built by building its data fields. -/
theorem builds_of_buildFields {fields : List (String × Config)} {path : Path}
    {built : Fields NodeId × Store} (h : c.buildFields fields path s = .ok built) :
    ∀ field ∈ fields, field.2.isValidation = false → Builds c field.2 := by
  induction fields generalizing s built with
  | nil => simp
  | cons field rest ih =>
    obtain ⟨name, entry⟩ := field
    intro other hm hdata
    cases hv : entry.isValidation with
    | true =>
      obtain ⟨target, rfl⟩ := (isValidation_iff entry).1 hv
      rw [buildFields] at h
      rcases List.mem_cons.1 hm with rfl | hm
      · simp [Config.isValidation] at hdata
      · exact ih h other hm hdata
    | false =>
      rw [buildFields_cons c name hv] at h
      obtain ⟨⟨id, s₁⟩, hb, h⟩ := bind_eq_ok.1 h
      obtain ⟨⟨ids, s₂⟩, hbs, -⟩ := bind_eq_ok.1 h
      rcases List.mem_cons.1 hm with rfl | hm
      · exact ⟨_, _, _, hb⟩
      · exact ih hbs other hm hdata

theorem Builds.fields {fields : List (String × Config)} (h : Builds c config)
    (hl : c.layout config = .record fields) :
    ∀ field ∈ fields, field.2.isValidation = false → Builds c field.2 := by
  obtain ⟨path, s, built, hb⟩ := h
  rw [build_eq, hl] at hb
  obtain ⟨data, hfields, -⟩ := bind_eq_ok.1 hb
  exact builds_of_buildFields hfields

theorem nodeFree_of_parts {sub : Config} (h : config.NodeFree)
    (hm : sub ∈ (c.layout config).parts) : sub.NodeFree := by
  intro id he
  rcases (parts_layout c hm).2 with hs | ⟨v, rfl⟩
  · exact h id (hs he)
  · simp [entries] at he

/-- A node that was built for an entry other than a validation is no validation. -/
theorem Stands.isValidation_eq_false (h : Stands c s' config id) (hnode : config.NodeFree)
    (hd : ∀ path, c.layout config ≠ .detached path) : s'.isValidation id = false := by
  unfold Store.isValidation
  cases hl : c.layout config with
  | shared shared => exact absurd (node_of_layout c hl) (hnode shared)
  | scalar d => rw [h.scalar_inv hl]
  | list items =>
    obtain ⟨ids, hn, -⟩ := h.list_inv hl
    rw [hn]
  | record fields =>
    obtain ⟨nodes, hn, -⟩ := h.record_inv hl
    rw [hn]
  | incomplete => exact absurd hl h.not_incomplete
  | detached path => exact absurd hl (hd path)

/-- Bringing the data fields to the front does not change what a name stands for. -/
theorem get?_arranged {fields : List (String × Config)} (hf : config.Fits s)
    (hl : c.layout config = .record fields) (name : String) :
    (arranged fields).get? name = Fields.get? fields name := by
  rcases record_of_layout c hl with hm | ⟨vs, rfl⟩
  · have hd := hf.distinct fields hm
    refine Option.ext fun entry => ⟨fun h => ?_, fun h => ?_⟩
    · exact Fields.get?_of_mem hd (mem_arranged_iff.1 (Fields.mem_of_get? h))
    · exact Fields.get?_of_mem (distinct_arranged hd) (mem_arranged_iff.2 (Fields.mem_of_get? h))
  · rw [arranged_of_literalFields? (literalFields?_literal vs)]

/-- Behind the name of a child there is an entry that the child stands for. -/
theorem Stands.field {fields : List (String × Config)} {nodes : Fields NodeId} {name : String}
    {child : NodeId} (hf : config.Fits s) (h : Stands c s' config id)
    (hl : c.layout config = .record fields) (hn : s'.node? id = some (.composite nodes))
    (hchild : nodes.get? name = some child) :
    ∃ entry, Fields.get? fields name = some entry ∧ Stands c s' entry child ∧
      Wired s' id entry child := by
  obtain ⟨nodes', hn', hnames, hstands, hwired⟩ := h.record_inv hl
  rw [hn, Option.some.injEq, Node.composite.injEq] at hn'
  subst hn'
  rcases Fields.get?_zip hnames.symm name with ⟨entry, child', hentry, hchild', hm⟩ | ⟨-, hnone⟩
  · rw [hchild, Option.some.injEq] at hchild'
    subst hchild'
    rw [get?_arranged hf hl] at hentry
    exact ⟨entry, hentry, hstands _ hm, hwired _ hm⟩
  · rw [hchild] at hnone
    exact absurd hnone (by simp)

/-- What stands for an entry is of its type. -/
theorem Stands.agrees (harray : ∀ items, c.isElement (.array items) = false)
    (hempty : c.isElement (.object []) = false) (hf : config.Fits s) (hnode : config.NodeFree)
    (hb : Builds c config) (h : Stands c s' config id) {t : Schema}
    (ht : c.inference.typeOf config = .ok t) : Agrees c s' id t := by
  induction config using c.layout_induction generalizing id t with
  | step config ih =>
    have htype := hasType_layout harray hempty ht
    generalize hl : c.layout config = l at htype
    cases htype with
    | scalar ht => exact .scalar (h.scalar_inv hl) ht
    | array ht => exact .array (h.scalar_inv hl) ht
    | list ht =>
      obtain ⟨ids, hn, -⟩ := h.list_inv hl
      exact .list hn ht
    | emptyRecord hc =>
      obtain ⟨nodes, hn, hall⟩ := h.fields hl
      cases hall
      exact .emptyComposite hc hn
    | incomplete => exact absurd hl h.not_incomplete
    | detached => exact absurd hl (hb.not_detached _)
    | @record fields types t ht hfields =>
      obtain ⟨nodes, hn, hnames, -⟩ := h.record_inv hl
      have htypes := Inference.names_of_fieldTypesOf hfields
      -- A field behind a name is an entry to recurse on, typed as the name is in the record type.
      have hpart : ∀ {name entry}, Fields.get? fields name = some entry →
          entry ∈ (c.layout config).parts := fun hentry => by
        rw [hl]
        exact List.mem_map_of_mem (Fields.mem_of_get? hentry)
      refine .composite hn ht ?_ ?_ ?_
      · rw [hnames, htypes]
        exact (arranged_perm fields).symm.map _
      · intro name child u hchild hdata hu
        obtain ⟨entry, hentry, hstands, hwired⟩ := h.field hf hl hn hchild
        obtain ⟨u', hu', hty⟩ := Inference.get?_of_fieldTypesOf hfields hentry
        rw [hu, Option.some.injEq] at hu'
        subst hu'
        have hv : entry.isValidation = false := by
          refine Bool.eq_false_iff.2 fun hv => ?_
          obtain ⟨path, rfl⟩ := (isValidation_iff entry).1 hv
          obtain ⟨target, hcheck, -⟩ := hwired path rfl
          rw [Store.isValidation, hcheck] at hdata
          exact absurd hdata (by simp)
        exact ih entry (hpart hentry) (fits_of_parts hf (hpart hentry))
          (nodeFree_of_parts hnode (hpart hentry))
          (hb.fields hl _ (Fields.mem_of_get? hentry) hv) hstands hty
      · intro name child hchild hcheck
        obtain ⟨entry, hentry, hstands, -⟩ := h.field hf hl hn hchild
        have hv : entry.isValidation = true := by
          refine Bool.eq_true_of_not_eq_false fun hv => ?_
          have hbuilt := hb.fields hl _ (Fields.mem_of_get? hentry) hv
          have hfree := nodeFree_of_parts hnode (hpart hentry)
          rw [hstands.isValidation_eq_false hfree hbuilt.not_detached] at hcheck
          exact absurd hcheck (by simp)
        obtain ⟨path, rfl⟩ := (isValidation_iff entry).1 hv
        obtain ⟨u, hu, hty⟩ := Inference.get?_of_fieldTypesOf hfields hentry
        rw [Inference.typeOf, Except.ok.injEq] at hty
        rw [hu, hty]

/-- An entry without nodes that can be compiled has a type, and the tree that is compiled from it
agrees with this type at every depth. -/
theorem compile_agrees (c : Compiler) (harray : ∀ items, c.isElement (.array items) = false)
    (hempty : c.isElement (.object []) = false) (hf : config.Fits s) (hnode : config.NodeFree)
    (h : c.compile config s = .ok (id, s')) :
    ∃ t, c.inference.typeOf config = .ok t ∧ Agrees c s' id t := by
  obtain ⟨t, ht⟩ := Inference.exists_typeOf c.inference hnode
  have hstands := (c.build_spec config hf h).stands
  have hbuilds : Builds c config := ⟨_, _, _, h⟩
  exact ⟨t, ht, hstands.agrees harray hempty hf hnode hbuilds ht⟩

/-- Containers and instances are taken apart. -/
def unfolding : Compiler := ⟨⟨.structural, .expand⟩, fun _ => false⟩

/-- A required array, an instance, a record without fields, and a validation of the array. -/
def postConfig : Config :=
  .record [("checked", .validates "tags"),
    ("tags", .shape (.sequence [.literal (.bool true)]) true),
    ("origin", .literal (.instanceOf "Point" [("x", .null)])), ("rest", .record [])]

theorem compile_agrees_post :
    (∀ items, unfolding.isElement (.array items) = false) ∧
      unfolding.isElement (.object []) = false ∧ postConfig.Fits ∅ ∧ postConfig.NodeFree ∧
      ∃ id s' t, unfolding.compile postConfig ∅ = .ok (id, s') ∧
        unfolding.inference.typeOf postConfig = .ok t ∧ Agrees unfolding s' id t := by
  have harray : ∀ items, unfolding.isElement (.array items) = false := fun _ => rfl
  have hempty : unfolding.isElement (.object []) = false := rfl
  have hf : postConfig.Fits ∅ := by decide
  have hnode : postConfig.NodeFree := by
    simp [postConfig, NodeFree, entries, itemEntries, fieldEntries]
  obtain ⟨⟨id, s'⟩, h⟩ : ∃ built, unfolding.compile postConfig ∅ = .ok built := ⟨_, rfl⟩
  obtain ⟨t, ht, hagrees⟩ := compile_agrees unfolding harray hempty hf hnode h
  exact ⟨harray, hempty, hf, hnode, id, s', t, h, ht, hagrees⟩

end Compiler

end StateTree
