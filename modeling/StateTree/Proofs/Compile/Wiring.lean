import StateTree.Proofs.Compile.Building
import StateTree.Proofs.Store.Run

/-
  The validations of a finished tree. Paths are followed while a record is still being built, among
  its data fields only. Main statement: each validation of a composite refers to the node that its
  path leads to from the finished composite, and it goes on to do so for as long as the program
  holds on to the tree, whatever else it does (`record_assembled`).
-/

namespace StateTree.Compiler

open Config Store

variable {c : Compiler} {s s' s'' : Store} {config sub : Config} {id root child : NodeId}

/-- `Place s config id sub child`: if `id` was built for `config`, then `child` was built for `sub`,
which is `config` itself or an entry within it. -/
inductive Place (s : Store) : Config → NodeId → Config → NodeId → Prop
  | here {config : Config} {id : NodeId} : Place s config id config id
  | shape {inner sub : Config} {required : Bool} {id child : NodeId}
      (h : Place s inner id sub child) : Place s (.shape inner required) id sub child
  | item {items : List Config} {ids : List NodeId} {item sub : Config} {id below child : NodeId}
      (hn : s.items? id = some ids) (hm : (item, below) ∈ items.zip ids)
      (h : Place s item below sub child) : Place s (.sequence items) id sub child
  | field {fields : List (String × Config)} {nodes : Fields NodeId} {name : String}
      {entry sub : Config} {id below child : NodeId} (hn : s.fields? id = some nodes)
      (hf : (name, entry) ∈ fields) (hc : nodes.get? name = some below)
      (h : Place s entry below sub child) : Place s (.record fields) id sub child

/-- The composite of a record: its data fields, then its validations, each in the order of
declaration, and each validation refers to the node that its path leads to. -/
def Assembled (s : Store) (fields : List (String × Config)) (id : NodeId) : Prop :=
  ∃ nodes, s.fields? id = some nodes ∧
    nodes.names = (dataFields fields).names ++ (checkFields fields).names ∧
    ∀ name path, (name, .validates path) ∈ fields →
      ∃ check target, nodes.get? name = some check ∧ s.node? check = some (.validation target) ∧
        s.target? check = some target ∧ s.find id path = .ok target ∧
        (Path.segments path = [] → target = id)

/-! ## Places -/

theorem Place.trans {mid last : Config} {below : NodeId} (h : Place s config id mid below)
    (h' : Place s mid below last child) : Place s config id last child := by
  induction h with
  | here => exact h'
  | shape _ ih => exact .shape (ih h')
  | item hn hm _ ih => exact .item hn hm (ih h')
  | field hn hf hc _ ih => exact .field hn hf hc (ih h')

theorem Place.entries_subset (h : Place s config id sub child) :
    sub.entries ⊆ config.entries := by
  induction h with
  | here => exact List.Subset.refl _
  | shape _ ih => exact List.Subset.trans ih (entries_inner _ _)
  | item _ hm _ ih => exact List.Subset.trans ih (entries_item (List.of_mem_zip hm).1)
  | field _ hf _ _ ih => exact List.Subset.trans ih (entries_field hf)

/-- What is taken apart is a literal, or a sequence or record that stands at the same node. -/
theorem place_cases (c : Compiler) (s : Store) (id : NodeId) : ∀ config : Config,
    (∃ v, .literal v ∈ config.entries ∧ c.layout config = opened v) ∨
      (∀ items, c.layout config = .list items → Place s config id (.sequence items) id) ∧
        ∀ fields, c.layout config = .record fields → Place s config id (.record fields) id
  | .shape inner required => by
    rw [layout]
    rcases place_cases c s id inner with ⟨v, hm, hl⟩ | ⟨hsequence, hrecord⟩
    · exact Or.inl ⟨v, entries_inner inner required hm, hl⟩
    · exact Or.inr ⟨fun items hl => .shape (hsequence items hl),
        fun fields hl => .shape (hrecord fields hl)⟩
  | .sequence items => by
    rw [layout]
    split
    · exact Or.inr ⟨by simp, by simp⟩
    · exact Or.inr ⟨fun _ hl => Layout.list.inj hl ▸ .here, by simp⟩
  | .record fields => by
    rw [layout]
    split
    · exact Or.inr ⟨by simp, by simp⟩
    · exact Or.inr ⟨by simp, fun _ hl => Layout.record.inj hl ▸ .here⟩
  | .literal v => by
    rw [layout]
    split
    · exact Or.inr ⟨by simp, by simp⟩
    · exact Or.inl ⟨v, by rw [entries]; exact List.mem_cons_self, rfl⟩
  | .scalar d => by
    rw [layout]
    split <;> exact Or.inr ⟨by simp, by simp⟩
  | .node id => Or.inr ⟨by simp [layout], by simp [layout]⟩
  | .pending template => Or.inr ⟨by simp [layout], by simp [layout]⟩
  | .validates path => Or.inr ⟨by simp [layout], by simp [layout]⟩

/-! ## Nodes and the entries that they were built for -/

/-- Only an empty record is settled as one scalar, and only where containers are kept whole. -/
theorem whole_of_scalarOf? {fields : List (String × Config)} {d : Declaration}
    (h : c.scalarOf? (.record fields) = some d) :
    fields = [] ∧ c.settings.containers = .whole := by
  unfold scalarOf? at h
  split at h
  · simp at h
  · next hkeep =>
    cases fields with
    | nil =>
      refine ⟨rfl, ?_⟩
      cases hc : c.settings.containers with
      | whole => rfl
      | structural => exact absurd ⟨hc, rfl⟩ hkeep
    | cons field rest => simp [Inference.ofConfig?] at h

theorem layout_record (c : Compiler) (fields : List (String × Config)) :
    (fields = [] ∧ c.settings.containers = .whole ∧
        ∃ d, c.layout (.record fields) = .scalar d) ∨
      c.layout (.record fields) = .record fields := by
  rw [layout]
  cases hd : c.scalarOf? (.record fields) with
  | some d =>
    obtain ⟨hnil, hwhole⟩ := whole_of_scalarOf? hd
    exact Or.inl ⟨hnil, hwhole, d, rfl⟩
  | none => exact Or.inr rfl

theorem Stands.layout_of_fields? {fields : List (String × Config)} {nodes : Fields NodeId}
    (h : Stands c s (.record fields) id) (hn : s.fields? id = some nodes) :
    c.layout (.record fields) = .record fields := by
  have hnode := node?_of_fields? hn
  rcases c.layout_record fields with ⟨-, -, d, hl⟩ | hl
  · simp [h.scalar_inv hl] at hnode
  · exact hl

theorem Stands.layout_of_items? {items : List Config} {ids : List NodeId}
    (h : Stands c s (.sequence items) id) (hn : s.items? id = some ids) :
    c.layout (.sequence items) = .list items := by
  have hnode := node?_of_items? hn
  rw [layout]
  cases hd : c.scalarOf? (.sequence items) with
  | some d =>
    have hl : c.layout (.sequence items) = .scalar d := by rw [layout, hd]
    simp [h.scalar_inv hl] at hnode
  | none => rfl

/-- What stands at a place stands for the entry there, and the tree owns it. -/
theorem Place.stands (h : Place s' config id sub child) (hst : Stands c s' config id)
    (hf : config.Fits s) : Stands c s' sub child ∧ sub.Fits s ∧ s'.Reaches id child := by
  induction h with
  | here => exact ⟨hst, hf, .refl⟩
  | shape _ ih =>
    exact ih (hst.of_layout_eq (by rw [layout])) (hf.of_subset (entries_inner _ _))
  | @item items ids item sub id below child hn hm _ ih =>
    have hl := hst.layout_of_items? hn
    obtain ⟨ids', hn', -, hall⟩ := hst.list_inv hl
    cases Node.list.inj (Option.some.inj (hn'.symm.trans (node?_of_items? hn)))
    obtain ⟨hitem, hbelow⟩ := List.of_mem_zip hm
    obtain ⟨hsub, hfit, hr⟩ := ih (hall _ hm) (hf.of_subset (entries_item hitem))
    exact ⟨hsub, hfit, .head ⟨_, hn', hbelow⟩ hr⟩
  | @field fields nodes name entry sub id below child hn hm hc _ ih =>
    have hl := hst.layout_of_fields? hn
    obtain ⟨nodes', hn', hnames, hall, -⟩ := hst.record_inv hl
    cases Node.composite.inj (Option.some.inj (hn'.symm.trans (node?_of_fields? hn)))
    have hd := distinct_arranged (hf.distinct _ (record_mem_entries _))
    have hget := Fields.get?_of_mem hd (mem_arranged_iff.2 hm)
    rcases Fields.get?_zip hnames.symm name with ⟨entry', below', hx, hy, hp⟩ | ⟨hx, -⟩
    · cases Option.some.inj (hx.symm.trans hget)
      cases Option.some.inj (hy.symm.trans hc)
      obtain ⟨hsub, hfit, hr⟩ := ih (hall _ hp) (hf.of_subset (entries_field hm))
      exact ⟨hsub, hfit, .head ⟨_, hn', List.mem_map_of_mem (Fields.mem_of_get? hc)⟩ hr⟩
    · rw [hget] at hx
      simp at hx

/-! ## Finished records -/

/-- The composite of a record is assembled, and stays so as long as what it owns is intact. -/
theorem Stands.assembled {fields : List (String × Config)} (h : Stands c s' (.record fields) id)
    (hl : c.layout (.record fields) = .record fields) (hf : (Config.record fields).Fits s)
    (hs : s'.Closed) (hr : s'.Reaches root id) (hi : Intact root s' s'') :
    Assembled s'' fields id := by
  obtain ⟨nodes, hn, hnames, -, hw⟩ := h.record_inv hl
  have hn' : s''.node? id = some (.composite nodes) := hi.node? hr hn (by simp)
  have hfields : s''.fields? id = some nodes := by rw [fields?, hn']
  refine ⟨nodes, hfields, by rw [hnames, arranged, Fields.names_append], ?_⟩
  intro name path hm
  have hd := distinct_arranged (hf.distinct _ (record_mem_entries _))
  have hget := Fields.get?_of_mem hd (mem_arranged_iff.2 hm)
  obtain ⟨check, hcheck, target, hv, hfind⟩ : ∃ check, nodes.get? name = some check ∧
      ∃ target, s'.node? check = some (.validation target) ∧ s'.find id path = .ok target := by
    rcases Fields.get?_zip hnames.symm name with ⟨entry, check, hx, hy, hp⟩ | ⟨hx, -⟩
    · exact ⟨check, hy, hw _ hp path (Option.some.inj (hx.symm.trans hget))⟩
    · rw [hget] at hx
      simp at hx
  have howned : s'.Owns id check := ⟨_, hn, List.mem_map_of_mem (Fields.mem_of_get? hcheck)⟩
  have hv' : s''.node? check = some (.validation target) :=
    hi.node? (hr.tail howned) hv (by simp)
  -- The path goes down from the composite, so the tree owns the target too and keeps it.
  obtain ⟨hfind', htarget⟩ := hi.walk_ok hr hfind
  have hhas : s''.Has target := hi.has htarget (hs.walk (has_of_node? hn) hfind)
  refine ⟨check, target, hcheck, hv', ?_, hfind', fun hnil => ?_⟩
  · unfold target?
    rw [hv']
    exact if_pos hhas
  · unfold find at hfind
    rw [hnil] at hfind
    exact (Except.ok.inj hfind).symm

/-- Wherever a record stands in a compiled configuration, its composite is assembled after any run
that holds on to the tree. An empty record that was kept whole is a scalar instead. -/
theorem record_assembled {fields : List (String × Config)} (hs : s.Closed) (hf : config.Fits s)
    (h : c.compile config s = .ok (root, s')) (hrun : Run root s' s'')
    (hp : Place s' config root (.record fields) id) :
    (fields = [] ∧ c.settings.containers = .whole ∧ (s''.slot? id).isSome) ∨
      Assembled s'' fields id := by
  have hb := c.build_spec config hf h
  obtain ⟨hst, hfit, hr⟩ := hp.stands hb.stands hf
  have hi := intact_of_run hrun
  rcases c.layout_record fields with ⟨hnil, hwhole, d, hl⟩ | hl
  · obtain ⟨slot, hslot, -⟩ := hi.slot? hr (hst.scalar_inv hl)
    exact Or.inl ⟨hnil, hwhole, by rw [hslot]; rfl⟩
  · exact Or.inr (hst.assembled hl hfit (hb.closed hs) hr hi)

/-- A record that validates a node declared further on, and within it one that validates
itself. -/
def rowsConfig : Config :=
  .record [("first", .validates "rows/0/on"),
    ("rows", .sequence [.record [("self", .validates ""), ("on", .literal (.bool true))]])]

/-- What `rowsConfig` is compiled to. -/
def rowsStore : Store :=
  ⟨#[some (.scalar (.ofDeclaration (.settled .bool (.bool true)))),
    some (.composite [("on", ⟨0⟩), ("self", ⟨2⟩)]), some (.validation ⟨1⟩),
    some (.list [⟨1⟩]), some (.composite [("rows", ⟨3⟩), ("first", ⟨5⟩)]),
    some (.validation ⟨0⟩)]⟩

theorem record_assembled_rows :
    standard.compile rowsConfig ∅ = .ok (⟨4⟩, rowsStore) ∧
      Run ⟨4⟩ rowsStore ((rowsStore.assign ⟨0⟩ (.bool false)).sweep [⟨4⟩]) ∧
      Assembled ((rowsStore.assign ⟨0⟩ (.bool false)).sweep [⟨4⟩])
        [("self", .validates ""), ("on", .literal (.bool true))] ⟨1⟩ := by
  have hf : rowsConfig.Fits ∅ := by decide
  have hc : standard.compile rowsConfig ∅ = .ok (⟨4⟩, rowsStore) := rfl
  have hset : rowsStore.set ⟨4⟩ "rows/0/on" (.bool false) =
      .ok (rowsStore.assign ⟨0⟩ (.bool false)) := rfl
  have hrun : Run ⟨4⟩ rowsStore ((rowsStore.assign ⟨0⟩ (.bool false)).sweep [⟨4⟩]) :=
    .tail (.single (.set hset)) (.sweep (by simp))
  have hp : Place rowsStore rowsConfig ⟨4⟩
      (.record [("self", .validates ""), ("on", .literal (.bool true))]) ⟨1⟩ :=
    .field rfl (List.mem_cons_of_mem _ List.mem_cons_self) rfl
      (.item rfl List.mem_cons_self .here)
  exact ⟨hc, hrun, (record_assembled closed_empty hf hc hrun hp).resolve_left (by simp)⟩

end StateTree.Compiler
