import StateTree.Proofs.Compile.Defects
import StateTree.Proofs.Compile.Setting
import StateTree.Proofs.Store.Positions
import StateTree.Proofs.Value.Same

/-
  Positions in a compiled tree. Where every field of a record or a literal has a name that is one
  segment of a path, the composites of the tree have such names too (`Stands.legible`). Main
  statement: the path that is joined along a position leads to its node, every node has a position,
  and two paths find one node exactly if they name the same position (`compile_positions`).
-/

namespace StateTree

open Config

/-! ## Names in literals -/

namespace Value

mutual

/-- The name of every field of an object or an instance, at any depth, is one segment of a path. -/
def Named : Value → Prop
  | .array items => ItemsNamed items
  | .object fields => FieldsNamed fields
  | .instanceOf _ fields => FieldsNamed fields
  | _ => True

def ItemsNamed : List Value → Prop
  | [] => True
  | v :: rest => Named v ∧ ItemsNamed rest

def FieldsNamed : List (String × Value) → Prop
  | [] => True
  | (name, v) :: rest => (Path.IsSegment name ∧ Named v) ∧ FieldsNamed rest

end

theorem named_of_mem_items {items : List Value} (h : ItemsNamed items) : ∀ v ∈ items, v.Named :=
  forall_mem_of_cons (fun h => h) h

theorem named_of_mem_fields {fields : List (String × Value)} (h : FieldsNamed fields) :
    ∀ field ∈ fields, Path.IsSegment field.1 ∧ field.2.Named :=
  forall_mem_of_cons (fun h => h) h

end Value

/-! ## Names in entries -/

/-- The name of every field, of a record or within a literal, is one segment of a path, and no
literal has two fields of one name in one place. -/
structure Config.Addressable (config : Config) : Prop where
  named : config.Named
  literal : ∀ v, .literal v ∈ config.entries → v.Named ∧ v.NamesDistinct

namespace Config

variable {config sub : Config}

theorem Addressable.of_subset (h : config.Addressable) (hs : sub.entries ⊆ config.entries) :
    sub.Addressable :=
  ⟨h.named.of_subset hs, fun v hm => h.literal v (hs hm)⟩

theorem addressable_literal {v : Value} (hn : v.Named) (hd : v.NamesDistinct) :
    (literal v).Addressable := by
  constructor
  · intro fields hm
    simp [entries] at hm
  · intro w hm
    rw [entries, List.mem_singleton, literal.injEq] at hm
    exact hm ▸ ⟨hn, hd⟩

/-- Each of the fields has a name of its own, which is one segment of a path, and an addressable
entry. -/
structure AddressableFields (fields : List (String × Config)) : Prop where
  distinct : Fields.Distinct fields
  isSegment : ∀ field ∈ fields, Path.IsSegment field.1
  addressable : ∀ field ∈ fields, field.2.Addressable

theorem addressableFields_literal {vs : List (String × Value)} (hdistinct : Fields.Distinct vs)
    (hd : Value.FieldsDistinct vs) (hn : Value.FieldsNamed vs) :
    AddressableFields (vs.map fun v => (v.1, .literal v.2)) where
  distinct := by
    unfold Fields.Distinct Fields.names at hdistinct ⊢
    rwa [List.map_map]
  isSegment := fun field hm => by
    obtain ⟨v, hv, rfl⟩ := List.mem_map.1 hm
    exact (Value.named_of_mem_fields hn v hv).1
  addressable := fun field hm => by
    obtain ⟨v, hv, rfl⟩ := List.mem_map.1 hm
    exact addressable_literal (Value.named_of_mem_fields hn v hv).2
      (Value.namesDistinct_of_mem_fields hd _ hv)

end Config

namespace Compiler

open Store

variable {c : Compiler} {s s' s₁ : Store} {config : Config} {root id : NodeId}

/-- What is taken apart is a literal among the entries, or its parts are entries within. -/
theorem layout_cases (c : Compiler) (config : Config) :
    (∃ v, .literal v ∈ config.entries ∧ c.layout config = opened v) ∨
      (∀ sub ∈ (c.layout config).parts, sub.entries ⊆ config.entries) ∧
        ∀ fields, c.layout config = .record fields → .record fields ∈ config.entries := by
  -- At which node the entry stands makes no difference to what is within it.
  rcases c.place_cases ∅ ⟨0⟩ config with hliteral | ⟨hsequence, hrecord⟩
  · exact Or.inl hliteral
  · refine Or.inr ⟨fun sub hm => ?_, fun fields hl =>
      (hrecord fields hl).entries_subset (record_mem_entries fields)⟩
    cases hl : c.layout config with
    | list items =>
      rw [hl] at hm
      exact List.Subset.trans (entries_item hm) (hsequence items hl).entries_subset
    | record fields =>
      rw [hl] at hm
      obtain ⟨field, hfield, rfl⟩ := List.mem_map.1 hm
      exact List.Subset.trans (entries_field hfield) (hrecord fields hl).entries_subset
    | _ => simp [hl, Layout.parts] at hm

/-- The fields of what is built as a record. -/
theorem fields_of_layout {fields : List (String × Config)} (hf : config.Fits s)
    (ha : config.Addressable) (hl : c.layout config = .record fields) :
    AddressableFields fields := by
  rcases c.layout_cases config with ⟨v, hm, hv⟩ | ⟨hparts, hrecord⟩
  · obtain ⟨hn, hd⟩ := ha.literal v hm
    cases v with
    | object vs =>
      cases hv.symm.trans hl
      exact addressableFields_literal hd.1 hd.2 hn
    | instanceOf className vs =>
      cases hv.symm.trans hl
      exact addressableFields_literal hd.1 hd.2 hn
    | _ => simp [hv, opened] at hl
  · have hm := hrecord fields hl
    refine ⟨hf.distinct fields hm, ha.named fields hm, ?_⟩
    intro field hfield
    apply ha.of_subset (hparts field.2 _)
    rw [hl]
    exact List.mem_map_of_mem hfield

/-- The items of what is built as a list. -/
theorem items_of_layout {items : List Config} (ha : config.Addressable)
    (hl : c.layout config = .list items) : ∀ item ∈ items, item.Addressable := by
  rcases c.layout_cases config with ⟨v, hm, hv⟩ | ⟨hparts, -⟩
  · obtain ⟨hn, hd⟩ := ha.literal v hm
    cases v with
    | array vs =>
      cases hv.symm.trans hl
      intro item hitem
      obtain ⟨w, hw, rfl⟩ := List.mem_map.1 hitem
      exact addressable_literal (Value.named_of_mem_items hn w hw)
        (Value.namesDistinct_of_mem_items hd w hw)
    | _ => simp [hv, opened] at hl
  · intro item hitem
    apply ha.of_subset (hparts item _)
    rw [hl]
    exact hitem

/-! ## Names in trees -/

/-- Below a node that stands for an entry, the names are those of the entries. -/
theorem Stands.legible (h : Stands c s' config id) (hf : config.Fits s) (hnode : config.NodeFree)
    (ha : config.Addressable) : s'.Legible id := by
  induction h with
  | shared hl => exact absurd (node_of_layout c hl) (hnode _)
  | scalar hl hn => exact .of_children hn (by simp) (by simp [Node.children])
  | check hl hn => exact .of_children hn (by simp) (by simp [Node.children])
  | @list config id items ids hl hn hlen _ ih =>
    refine .of_children hn (by simp) ?_
    intro child hm
    obtain ⟨item, hp⟩ := exists_mem_zip hlen.symm hm
    have hitem := (List.of_mem_zip hp).1
    have hpart : item ∈ (c.layout config).parts := by rwa [hl]
    exact ih _ hp (fits_of_parts hf hpart) (nodeFree_of_parts hnode hpart)
      (items_of_layout ha hl item hitem)
  | @record config id fields nodes hl hn hnames _ _ ih =>
    have hfields := fields_of_layout hf ha hl
    refine .of_children hn ?_ ?_
    · intro nodes' he
      cases Node.composite.inj he
      constructor
      · unfold Fields.Distinct
        rw [hnames]
        exact distinct_arranged hfields.distinct
      · intro node hm
        have hname : node.1 ∈ (arranged fields).names := hnames ▸ List.mem_map_of_mem hm
        obtain ⟨field, hfield, he⟩ := List.mem_map.1 hname
        exact he ▸ hfields.isSegment field (mem_arranged_iff.1 hfield)
    · intro child hm
      obtain ⟨node, hnode', rfl⟩ := List.mem_map.1 hm
      obtain ⟨field, hp⟩ := exists_mem_zip (Fields.length_eq_of_names_eq hnames).symm hnode'
      have hfield := mem_arranged_iff.1 (List.of_mem_zip hp).1
      have hpart : field.2 ∈ (c.layout config).parts := by
        rw [hl]
        exact List.mem_map_of_mem hfield
      exact ih _ hp (fits_of_parts hf hpart) (nodeFree_of_parts hnode hpart)
        (hfields.addressable field hfield)

/-! ## Compiled trees -/

/-- In any state of a compiled tree, every node has a position, the path that is joined from the
names and indexes along the position finds the node, and two paths that find nodes find the same one
exactly if they name the same position. -/
theorem compile_positions (hs : s.Closed) (hf : config.Fits s) (hnode : config.NodeFree)
    (ha : config.Addressable) (h : c.compile config s = .ok (root, s')) (hrun : Run root s' s₁) :
    (∀ id, s₁.Reaches root id → ∃ branches, s₁.along? root branches = some id) ∧
    (∀ branches id, s₁.along? root branches = some id →
      s₁.find root (Path.ofSteps (branches.map Branch.text)) = .ok id) ∧
    ∀ path path' target target', s₁.find root path = .ok target →
      s₁.find root path' = .ok target' →
      ∃ branches branches', s₁.branches? root (Path.segments path) = some branches ∧
        s₁.branches? root (Path.segments path') = some branches' ∧
        (target = target' ↔ branches = branches') := by
  obtain ⟨-, -, ht⟩ := ownsTree_of_run hs hf hnode h hrun
  have hlegible : s₁.Legible root :=
    ((c.build_spec config hf h).stands.legible hf hnode ha).intact (intact_of_run hrun)
  refine ⟨?_, ?_, ?_⟩
  · intro id hr
    exact hlegible.exists_along hr
  · intro branches id hb
    exact hlegible.find_ofSteps hb
  · intro path path' target target' hp hp'
    exact find_eq_iff_branches ht hp hp'

/-- A literal of an instance and a value, the second one validated. -/
def shelfConfig : Config :=
  .record [("rows", .literal (.array [.instanceOf "Row" [("on", .bool true)], .bool true])),
    ("last", .validates "rows/1")]

/-- What `shelfConfig` is compiled to where literals are taken apart. -/
def shelfStore : Store :=
  ⟨#[some (.scalar (.ofDeclaration (.settled .bool (.bool true)))),
    some (.composite [("on", ⟨0⟩)]), some (.scalar (.ofDeclaration (.settled .bool (.bool true)))),
    some (.list [⟨1⟩, ⟨2⟩]), some (.composite [("rows", ⟨3⟩), ("last", ⟨5⟩)]),
    some (.validation ⟨2⟩)]⟩

theorem compile_positions_shelf :
    shelfConfig.Fits ∅ ∧ shelfConfig.NodeFree ∧ shelfConfig.Addressable ∧
      compile ⟨⟨.structural, .expand⟩, fun _ => false⟩ shelfConfig ∅ = .ok (⟨4⟩, shelfStore) ∧
      Run ⟨4⟩ shelfStore shelfStore ∧
      (∃ branches, shelfStore.along? ⟨4⟩ branches = some ⟨5⟩) ∧
      shelfStore.find ⟨4⟩ (Path.ofSteps ["rows", "0", "on"]) = .ok ⟨0⟩ ∧
      ∃ branches branches', shelfStore.branches? ⟨4⟩ ["rows", "00"] = some branches ∧
        shelfStore.branches? ⟨4⟩ ["rows", "01"] = some branches' ∧ branches ≠ branches' := by
  have hf : shelfConfig.Fits ∅ := by decide
  have hnode : shelfConfig.NodeFree := by
    simp [shelfConfig, NodeFree, entries, fieldEntries]
  have ha : shelfConfig.Addressable := by
    constructor
    · intro fields hm
      simp only [shelfConfig, entries, fieldEntries, List.append_nil, List.cons_append,
        List.nil_append, List.mem_cons, List.not_mem_nil, record.injEq, reduceCtorEq,
        or_false] at hm
      subst hm
      simp [Path.IsSegment]
    · simp [shelfConfig, entries, fieldEntries, Value.Named, Value.ItemsNamed, Value.FieldsNamed,
        Value.NamesDistinct, Value.ItemsDistinct, Value.FieldsDistinct, Path.IsSegment,
        Fields.Distinct, Fields.names]
  have hc : compile ⟨⟨.structural, .expand⟩, fun _ => false⟩ shelfConfig ∅ =
      .ok (⟨4⟩, shelfStore) := rfl
  obtain ⟨hplaced, hfound, hsame⟩ := compile_positions closed_empty hf hnode ha hc .refl
  obtain ⟨branches, branches', hb, hb', hiff⟩ :=
    hsame "rows/00" "/rows//01/" ⟨1⟩ ⟨2⟩ rfl rfl
  exact ⟨hf, hnode, ha, hc, .refl, hplaced ⟨5⟩ (.single ⟨_, rfl, by simp [Node.children]⟩),
    hfound [.field "rows", .item 0, .field "on"] ⟨0⟩ rfl, branches, branches', hb, hb',
    fun he => absurd (hiff.2 he) (by decide)⟩

end Compiler

end StateTree
