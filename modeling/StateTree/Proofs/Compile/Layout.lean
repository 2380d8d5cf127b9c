import StateTree.Compile
import StateTree.Proofs.Entries

/-
  What the compiler makes of an entry, one level deep. The layout of an entry is all that the
  compiler decides about it: it is a node that is there already, one scalar, a list or a record of
  further entries, or a fault. `build_eq` says that building follows the layout, for literals and
  for other entries alike, so the rest of the theory never looks at the two builders apart.
  `layout_induction` is the induction along what is taken apart.
-/

namespace StateTree

inductive Layout
  /-- A node that is there already. -/
  | shared (id : NodeId)
  | scalar (d : Declaration)
  | list (items : List Config)
  | record (fields : List (String × Config))
  /-- A required type without a default. -/
  | incomplete
  /-- A validation that is no field of a record. -/
  | detached (path : Path)

/-- The entries that are built on their own. -/
def Layout.parts : Layout → List Config
  | .list items => items
  | .record fields => fields.map (·.2)
  | _ => []

/-- The entry that one segment leads to. Below a node that is there already, every node is an
entry of its own. -/
def Layout.below? (s : Store) : Layout → String → Option Config
  | .shared id, segment => (s.child? id segment).map .node
  | .list items, segment => (Path.index? segment).bind fun i => items[i]?
  | .record fields, segment => (Config.arranged fields).get? segment
  | _, _ => none

/-- A failure in either of two steps is a failure of both together. -/
theorem bind_eq_ok {ε α β : Type} {x : Except ε α} {f : α → Except ε β} {b : β} :
    (x >>= f) = .ok b ↔ ∃ a, x = .ok a ∧ f a = .ok b := by
  cases x with
  | error e => simp [bind, Except.bind]
  | ok a => simp [bind, Except.bind]

namespace Compiler

open Config

variable {c : Compiler} {s s' : Store}

/-! ## Layouts -/

/-- What a literal is taken apart into. -/
def opened : Value → Layout
  | .array items => .list (items.map .literal)
  | .object fields => .record (fields.map fun field => (field.1, .literal field.2))
  | .instanceOf _ fields => .record (fields.map fun field => (field.1, .literal field.2))
  | v => .scalar ((Declaration.primitive .any).defaultsTo v)

def layout (c : Compiler) : Config → Layout
  | .node id => .shared id
  | .pending _ => .incomplete
  | .scalar d => if d.isUsable then .scalar d else .incomplete
  | .shape inner _ => layout c inner
  | .validates path => .detached path
  | .sequence items =>
    match c.scalarOf? (.sequence items) with
    | some d => .scalar d
    | none => .list items
  | .record fields =>
    match c.scalarOf? (.record fields) with
    | some d => .scalar d
    | none => .record fields
  | .literal v =>
    match c.scalarOfValue? v with
    | some d => .scalar d
    | none => opened v

/-- A literal is settled in the same way as an entry and as a value. -/
theorem scalarOf?_literal (c : Compiler) (v : Value) :
    c.scalarOf? (.literal v) = c.scalarOfValue? v := by
  have hinfer : c.inference.ofConfig? (.literal v) = c.inference.ofValue? v := rfl
  unfold scalarOf? scalarOfValue?
  rw [hinfer]
  cases c.settings.containers with
  | whole => rfl
  | structural =>
    cases v with
    | object fields => cases fields <;> rfl
    | _ => rfl

/-- Builds the nodes of an entry of known layout that stands at a path. -/
def assemble (c : Compiler) (path : Path) (s : Store) : Layout → Except Error (NodeId × Store)
  | .shared id => .ok (id, s)
  | .scalar d => .ok (s.scalar d)
  | .list items => do
    let (ids, s) ← c.buildItems items path 0 s
    return s.list ids
  | .record fields => do
    let (data, s) ← c.buildFields fields path s
    let targets ← resolveAll s data (validations fields)
    return s.record data targets
  | .incomplete => .error (.missingDefault path)
  | .detached target => .error (.detachedValidation target)

/-! ## Building follows the layout -/

theorem buildItems_literal (c : Compiler) (vs : List Value) (path : Path) (index : Nat)
    (s : Store) :
    c.buildItems (vs.map .literal) path index s = .ok (c.placeItems vs s) := by
  induction vs generalizing index s with
  | nil => rfl
  | cons v vs ih =>
    rw [List.map_cons, buildItems, build, placeItems]
    simp only [bind, Except.bind, ih]
    rfl

theorem buildFields_literal (c : Compiler) (fields : List (String × Value)) (path : Path)
    (s : Store) :
    c.buildFields (fields.map fun field => (field.1, .literal field.2)) path s =
      .ok (c.placeFields fields s) := by
  induction fields generalizing s with
  | nil => rfl
  | cons field fields ih =>
    obtain ⟨name, v⟩ := field
    rw [List.map_cons, buildFields, build, placeFields]
    · simp only [bind, Except.bind, ih]
      rfl
    · simp

theorem validations_eq (fields : List (String × Config)) :
    checkFields fields = (validations fields).map fun v => (v.1, .validates v.2) := by
  induction fields with
  | nil => rfl
  | cons field rest ih =>
    obtain ⟨name, entry⟩ := field
    cases entry with
    | validates path => exact congrArg ((name, .validates path) :: ·) ih
    | _ => exact ih

theorem validations_of_literalFields? {fields : List (String × Config)}
    {vs : List (String × Value)} (hvs : literalFields? fields = some vs) :
    validations fields = [] := by
  have h := validations_eq fields
  rw [checkFields_of_literalFields? hvs] at h
  exact List.map_eq_nil_iff.1 h.symm

theorem validations_literal (fields : List (String × Value)) :
    validations (fields.map fun field => (field.1, .literal field.2)) = [] :=
  validations_of_literalFields? (literalFields?_literal fields)

theorem assemble_list_literal (c : Compiler) (vs : List Value) (path : Path) (s : Store) :
    c.assemble path s (.list (vs.map .literal)) =
      .ok ((c.placeItems vs s).2.list (c.placeItems vs s).1) := by
  simp only [assemble, buildItems_literal, bind, Except.bind]
  rfl

theorem assemble_record_literal (c : Compiler) (fields : List (String × Value)) (path : Path)
    (s : Store) :
    c.assemble path s (.record (fields.map fun field => (field.1, .literal field.2))) =
      .ok ((c.placeFields fields s).2.composite (c.placeFields fields s).1) := by
  simp only [assemble, buildFields_literal, validations_literal, resolveAll, List.mapM_nil, bind,
    Except.bind]
  rfl

theorem place_of_none (c : Compiler) (v : Value) (path : Path) (s : Store)
    (h : c.scalarOfValue? v = none) : .ok (c.place v s) = c.assemble path s (opened v) := by
  cases v with
  | array items => simp only [place, h, opened, assemble_list_literal]
  | object fields => simp only [place, h, opened, assemble_record_literal]
  | instanceOf className fields => simp only [place, h, opened, assemble_record_literal]
  | _ => simp only [place, h, opened, assemble]

theorem build_eq (c : Compiler) : ∀ (config : Config) (path : Path) (s : Store),
    c.build config path s = c.assemble path s (c.layout config)
  | .node id, path, s => rfl
  | .pending template, path, s => rfl
  | .scalar d, path, s => by
    rw [build, layout]
    split <;> rfl
  | .shape inner required, path, s => by
    rw [build, layout]
    exact build_eq c inner path s
  | .validates target, path, s => rfl
  | .sequence items, path, s => by
    rw [build, layout]
    cases c.scalarOf? (.sequence items) <;> rfl
  | .record fields, path, s => by
    rw [build, layout]
    cases c.scalarOf? (.record fields) <;> rfl
  | .literal v, path, s => by
    rw [build, layout]
    cases h : c.scalarOfValue? v with
    | some d => cases v <;> simp only [place, h, assemble]
    | none => exact place_of_none c v path s h

/-! ## Induction along layouts -/

theorem sizeOf_lt_of_item {items : List Config} {item : Config} (h : item ∈ items) :
    sizeOf item < sizeOf (sequence items) := by
  have hlt := List.sizeOf_lt_of_mem h
  simp only [sequence.sizeOf_spec]
  omega

theorem sizeOf_lt_of_field {fields : List (String × Config)} {child : Config}
    (h : child ∈ fields.map (·.2)) : sizeOf child < sizeOf (record fields) := by
  obtain ⟨⟨name, child⟩, hm, rfl⟩ := List.mem_map.1 h
  have hlt := List.sizeOf_lt_of_mem hm
  simp only [Prod.mk.sizeOf_spec] at hlt
  simp only [record.sizeOf_spec]
  omega

theorem parts_opened {v : Value} {sub : Config} (h : sub ∈ (opened v).parts) :
    ∃ w, sub = .literal w ∧ sizeOf w < sizeOf v := by
  have hfields : ∀ fields : List (String × Value),
      sub ∈ (Layout.record (fields.map fun field => (field.1, .literal field.2))).parts →
      ∃ w, sub = .literal w ∧ sizeOf w < sizeOf fields := fun fields hm => by
    simp only [Layout.parts, List.map_map, List.mem_map, Function.comp_apply] at hm
    obtain ⟨⟨name, w⟩, hm, rfl⟩ := hm
    have hlt := List.sizeOf_lt_of_mem hm
    simp only [Prod.mk.sizeOf_spec] at hlt
    exact ⟨w, rfl, by omega⟩
  cases v with
  | array items =>
    obtain ⟨w, hm, rfl⟩ := List.mem_map.1 h
    have hlt := List.sizeOf_lt_of_mem hm
    exact ⟨w, rfl, by simp only [Value.array.sizeOf_spec]; omega⟩
  | object fields =>
    obtain ⟨w, rfl, hlt⟩ := hfields fields h
    exact ⟨w, rfl, by simp only [Value.object.sizeOf_spec]; omega⟩
  | instanceOf className fields =>
    obtain ⟨w, rfl, hlt⟩ := hfields fields h
    exact ⟨w, rfl, by simp only [Value.instanceOf.sizeOf_spec]; omega⟩
  | _ => simp [opened, Layout.parts] at h

/-- What is taken apart is an entry within, or a literal. -/
theorem parts_layout (c : Compiler) : ∀ {config sub : Config}, sub ∈ (c.layout config).parts →
    sizeOf sub < sizeOf config ∧
      (sub.entries ⊆ config.entries ∨ ∃ v, sub = .literal v)
  | .shape inner required, sub, h => by
    rw [layout] at h
    obtain ⟨hlt, hsub⟩ := parts_layout c h
    exact ⟨by simp only [shape.sizeOf_spec]; omega,
      hsub.imp_left fun hs => List.Subset.trans hs (entries_inner inner required)⟩
  | .sequence items, sub, h => by
    rw [layout] at h
    split at h
    · simp [Layout.parts] at h
    · exact ⟨sizeOf_lt_of_item h, Or.inl (entries_item h)⟩
  | .record fields, sub, h => by
    rw [layout] at h
    split at h
    · simp [Layout.parts] at h
    · obtain ⟨field, hm, rfl⟩ := List.mem_map.1 h
      exact ⟨sizeOf_lt_of_field h, Or.inl (entries_field hm)⟩
  | .literal v, sub, h => by
    rw [layout] at h
    split at h
    · simp [Layout.parts] at h
    · obtain ⟨w, rfl, hlt⟩ := parts_opened h
      refine ⟨?_, Or.inr ⟨w, rfl⟩⟩
      simp only [literal.sizeOf_spec]
      omega
  | .node _, _, h => by simp [layout, Layout.parts] at h
  | .pending _, _, h => by simp [layout, Layout.parts] at h
  | .scalar d, _, h => by
    rw [layout] at h
    split at h <;> simp [Layout.parts] at h
  | .validates _, _, h => by simp [layout, Layout.parts] at h

theorem layout_induction (c : Compiler) {motive : Config → Prop}
    (step : ∀ config, (∀ sub ∈ (c.layout config).parts, motive sub) → motive config)
    (config : Config) : motive config :=
  step config fun sub _ => layout_induction c step sub
termination_by sizeOf config
decreasing_by exact (parts_layout c ‹_›).1

theorem fits_of_parts {config sub : Config} (h : config.Fits s)
    (hm : sub ∈ (c.layout config).parts) : sub.Fits s := by
  rcases (parts_layout c hm).2 with hs | ⟨v, rfl⟩
  · exact h.of_subset hs
  · exact fits_literal v s

/-! ## Where a layout comes from -/

theorem node_of_layout (c : Compiler) : ∀ {config : Config} {id : NodeId},
    c.layout config = .shared id → .node id ∈ config.entries
  | .node id, _, h => by
    rw [layout, Layout.shared.injEq] at h
    rw [entries, h]
    exact List.mem_cons_self
  | .shape inner required, _, h => by
    rw [layout] at h
    exact entries_inner inner required (node_of_layout c h)
  | .scalar d, _, h => by
    rw [layout] at h
    split at h <;> simp at h
  | .sequence items, _, h => by
    rw [layout] at h
    split at h <;> simp at h
  | .record fields, _, h => by
    rw [layout] at h
    split at h <;> simp at h
  | .literal v, _, h => by
    rw [layout] at h
    split at h
    · simp at h
    · cases v <;> simp [opened] at h
  | .pending _, _, h => by simp [layout] at h
  | .validates _, _, h => by simp [layout] at h

/-- What is built as a record is a record among the entries, or comes from a literal. -/
theorem record_of_layout (c : Compiler) : ∀ {config : Config} {fields : List (String × Config)},
    c.layout config = .record fields →
      .record fields ∈ config.entries ∨
        ∃ vs : List (String × Value), fields = vs.map fun v => (v.1, .literal v.2)
  | .shape inner required, fields, h => by
    rw [layout] at h
    exact (record_of_layout c h).imp_left fun hm => entries_inner inner required hm
  | .record fields', fields, h => by
    rw [layout] at h
    split at h
    · simp at h
    · rw [← Layout.record.inj h]
      exact Or.inl (record_mem_entries fields')
  | .literal v, fields, h => by
    rw [layout] at h
    split at h
    · simp at h
    · cases v with
      | object vs => exact Or.inr ⟨vs, (Layout.record.inj h).symm⟩
      | instanceOf className vs => exact Or.inr ⟨vs, (Layout.record.inj h).symm⟩
      | _ => simp [opened] at h
  | .sequence items, _, h => by
    rw [layout] at h
    split at h <;> simp at h
  | .scalar d, _, h => by
    rw [layout] at h
    split at h <;> simp at h
  | .node _, _, h => by simp [layout] at h
  | .pending _, _, h => by simp [layout] at h
  | .validates _, _, h => by simp [layout] at h

theorem names_checkFields (fields : List (String × Config)) :
    (checkFields fields).names = (validations fields).map (·.1) := by
  rw [validations_eq, Fields.names, List.map_map]
  rfl

/-- The validations of a record meet neither each other nor the data fields. -/
theorem validations_of_layout {config : Config} {fields : List (String × Config)}
    (hf : config.Fits s)
    (hl : c.layout config = .record fields) :
    ((validations fields).map (·.1)).Nodup ∧
      ∀ check ∈ validations fields, check.1 ∉ (dataFields fields).names := by
  rcases record_of_layout c hl with hm | ⟨vs, rfl⟩
  · have hd := distinct_arranged (hf.distinct fields hm)
    unfold Fields.Distinct at hd
    rw [arranged, Fields.names_append, names_checkFields, List.nodup_append] at hd
    exact ⟨hd.2.1, fun check hc hn => hd.2.2 _ hn _ (List.mem_map_of_mem hc) rfl⟩
  · rw [validations_literal]
    simp

end Compiler

end StateTree
