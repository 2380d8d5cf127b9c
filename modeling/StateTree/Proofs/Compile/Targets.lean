import StateTree.Proofs.Compile.Defects
import StateTree.Proofs.Compile.Typed
import StateTree.Proofs.Compile.Wiring
import StateTree.Proofs.Store.Growth

/-
  What validations refer to. The path of a validation is followed through entries just as through
  nodes (`Founded.walk`), so its target is a validation exactly if the entry behind the path is one
  (`compile_targets`). Among the data fields of its own record there is none, but a record further
  down is finished by the time the path is followed, and a path may end at one of its validations
  (`compile_refers_to_validation`).
-/

namespace StateTree.Compiler

open Config Store

variable {c : Compiler} {s s' : Store} {config sub part : Config} {id root child target : NodeId}

/-! ## Entries behind paths -/

/-- The entry at the end of these segments, on the way down from an entry. -/
def descend? (c : Compiler) (s : Store) : Config → List String → Option Config
  | config, [] => some config
  | config, segment :: rest => (c.below? s config segment).bind fun sub => descend? c s sub rest

/-- The entry behind the path of a validation. The first segment names a data field of its
record. -/
def behind? (c : Compiler) (s : Store) (fields : List (String × Config)) (path : Path) :
    Option Config :=
  match Path.segments path with
  | [] => some (.record fields)
  | segment :: rest => ((dataFields fields).get? segment).bind fun entry => c.descend? s entry rest

/-- A path that ends at a validation goes through a record below its own. -/
theorem two_le_of_behind? {fields : List (String × Config)} {path inner : Path}
    (h : c.behind? s fields path = some (.validates inner)) :
    2 ≤ (Path.segments path).length := by
  unfold behind? at h
  split at h
  · simp at h
  · next segment rest hp =>
    obtain ⟨entry, he, h⟩ := Option.bind_eq_some_iff.1 h
    cases rest with
    | nil =>
      rw [descend?, Option.some.injEq] at h
      have hdata := List.of_mem_filter (Fields.mem_of_get? he)
      simp [h, Config.isValidation] at hdata
    | cons next rest =>
      rw [hp, List.length_cons, List.length_cons]
      omega

/-! ## Entries without defects -/

/-- Nothing keeps the entry from being compiled. -/
def Flawless (c : Compiler) (s : Store) (config : Config) : Prop :=
  ∃ steps, c.defects s config steps = []

theorem flawless_of_itemDefects {items : List Config} {steps : List String} {index : Nat}
    (h : c.itemDefects s items steps index = []) : ∀ item ∈ items, c.Flawless s item := by
  induction items generalizing index with
  | nil => simp
  | cons item rest ih =>
    rw [itemDefects, List.append_eq_nil_iff] at h
    exact List.forall_mem_cons.2 ⟨⟨_, h.1⟩, ih h.2⟩

theorem flawless_of_fieldDefects {fields : List (String × Config)} {steps : List String}
    (h : c.fieldDefects s fields steps = []) :
    ∀ field ∈ fields, field.2.isValidation = false → c.Flawless s field.2 := by
  induction fields with
  | nil => simp
  | cons field rest ih =>
    obtain ⟨name, entry⟩ := field
    rw [List.forall_mem_cons]
    cases hv : entry.isValidation with
    | true =>
      obtain ⟨path, rfl⟩ := (isValidation_iff entry).1 hv
      rw [fieldDefects] at h
      exact ⟨fun hdata => by simp at hdata, ih h⟩
    | false =>
      rw [fieldDefects_cons c s name hv, List.append_eq_nil_iff] at h
      exact ⟨fun _ => ⟨_, h.1⟩, ih h.2⟩

theorem Flawless.item {items : List Config} (h : c.Flawless s config)
    (hl : c.layout config = .list items) (hm : part ∈ items) : c.Flawless s part := by
  obtain ⟨steps, h⟩ := h
  rw [defects_eq, hl] at h
  exact flawless_of_itemDefects h part hm

theorem Flawless.field {fields : List (String × Config)} {name : String} (h : c.Flawless s config)
    (hl : c.layout config = .record fields) (hm : (name, part) ∈ fields)
    (hv : part.isValidation = false) : c.Flawless s part := by
  obtain ⟨steps, h⟩ := h
  rw [defects_eq, hl] at h
  exact flawless_of_fieldDefects (List.append_eq_nil_iff.1 h).1 (name, part) hm hv

/-- What is built on its own has no defects, unless it is a validation. -/
theorem flawless_of_part (h : c.Flawless s config) (hm : part ∈ (c.layout config).parts)
    (hv : part.isValidation = false) : c.Flawless s part := by
  cases hl : c.layout config with
  | list items =>
    rw [hl] at hm
    exact h.item hl hm
  | record fields =>
    rw [hl] at hm
    obtain ⟨field, hf, rfl⟩ := List.mem_map.1 hm
    exact h.field hl hf hv
  | _ => simp [hl, Layout.parts] at hm

/-- The path of a validation begins with a data field. -/
theorem Flawless.resolved {fields : List (String × Config)} {name : String} {path : Path}
    (h : c.Flawless s config) (hl : c.layout config = .record fields)
    (hm : (name, .validates path) ∈ fields) : c.unresolved? s fields path = none := by
  obtain ⟨steps, h⟩ := h
  rw [defects_eq, hl] at h
  have hchecks : c.checkDefects s fields = [] := (List.append_eq_nil_iff.1 h).2
  have hcheck : (name, path) ∈ validations fields := List.mem_filterMap.2 ⟨_, hm, rfl⟩
  exact List.filterMap_eq_nil_iff.1 hchecks (name, path) hcheck

theorem Flawless.not_detached (h : c.Flawless s config) (path : Path) :
    c.layout config ≠ .detached path := by
  intro hl
  obtain ⟨steps, h⟩ := h
  rw [defects_eq, hl] at h
  simp [layoutDefects] at h

theorem Flawless.isValidation (h : c.Flawless s config) : config.isValidation = false := by
  refine Bool.eq_false_iff.2 fun hv => ?_
  obtain ⟨path, rfl⟩ := (isValidation_iff config).1 hv
  exact h.not_detached path (by rw [layout])

/-! ## Nodes and their entries -/

/-- The node stands for this entry, which has been compiled. -/
structure Founded (c : Compiler) (s s' : Store) (sub : Config) (id : NodeId) : Prop where
  stands : Stands c s' sub id
  fits : sub.Fits s
  free : sub.NodeFree
  flawless : sub.isValidation = false → c.Flawless s sub

theorem parts_of_isValidation (h : sub.isValidation = true) : (c.layout sub).parts = [] := by
  obtain ⟨path, rfl⟩ := (isValidation_iff sub).1 h
  simp [layout, Layout.parts]

theorem founded_of_part (h : Founded c s s' sub id) (hm : part ∈ (c.layout sub).parts)
    (hst : Stands c s' part child) : Founded c s s' part child where
  stands := hst
  fits := fits_of_parts h.fits hm
  free := nodeFree_of_parts h.free hm
  flawless := fun hv => by
    refine flawless_of_part (h.flawless (Bool.eq_false_iff.2 fun hsub => ?_)) hm hv
    rw [parts_of_isValidation hsub] at hm
    simp at hm

theorem Founded.isValidation (h : Founded c s s' sub id) :
    s'.isValidation id = sub.isValidation := by
  cases hv : sub.isValidation with
  | true =>
    obtain ⟨path, rfl⟩ := (isValidation_iff sub).1 hv
    obtain ⟨target, hn⟩ := h.stands.detached_inv (by rw [layout])
    rw [Store.isValidation, hn]
  | false => exact h.stands.isValidation_eq_false h.free (h.flawless hv).not_detached

/-- An item of a list was built for an item of the sequence, and that is no validation. -/
theorem Founded.item {items : List Config} {ids : List NodeId} (h : Founded c s s' sub id)
    (hl : c.layout sub = .list items) (hn : s'.node? id = some (.list ids)) (hm : child ∈ ids) :
    ∃ item, Founded c s s' item child ∧ item.isValidation = false ∧
      ((∃ v, item = .literal v) ∨ Place s' sub id item child) := by
  obtain ⟨ids', hids, hlen, hi⟩ := h.stands.list_inv hl
  cases Node.list.inj (Option.some.inj (hids.symm.trans hn))
  obtain ⟨item, hp⟩ := exists_mem_zip hlen.symm hm
  have hitem : item ∈ (c.layout sub).parts := by
    rw [hl]
    exact (List.of_mem_zip hp).1
  have hsub : sub.isValidation = false := Bool.eq_false_iff.2 fun hsub => by
    rw [parts_of_isValidation hsub] at hitem
    simp at hitem
  refine ⟨item, founded_of_part h hitem (hi _ hp),
    ((h.flawless hsub).item hl (List.of_mem_zip hp).1).isValidation, ?_⟩
  rcases c.place_cases s' id sub with ⟨v, -, hv⟩ | ⟨hsequence, -⟩
  · obtain ⟨w, hw, -⟩ := parts_opened (hv ▸ hitem)
    exact Or.inl ⟨w, hw⟩
  · have hitems : s'.items? id = some ids := by rw [items?, hn]
    exact Or.inr ((hsequence items hl).trans (.item hitems hp .here))

/-- A field of a composite was built for the field of the record of the same name, and stands
there alone under this name unless it is part of a literal. -/
theorem Founded.field {fields : List (String × Config)} {nodes : Fields NodeId} {name : String}
    (h : Founded c s s' sub id) (hl : c.layout sub = .record fields)
    (hn : s'.node? id = some (.composite nodes)) (hm : (name, child) ∈ nodes) :
    ∃ entry, Founded c s s' entry child ∧ (name, entry) ∈ fields ∧ Wired s' id entry child ∧
      ((∃ v, entry = .literal v) ∨
        Place s' sub id (.record fields) id ∧ nodes.get? name = some child) := by
  obtain ⟨nodes', hnodes, hnames, hi, hw⟩ := h.stands.record_inv hl
  cases Node.composite.inj (Option.some.inj (hnodes.symm.trans hn))
  have hall : List.Forall₂ (fun field node => field.1 = node.1 ∧ Stands c s' field.2 node.2)
      (arranged fields) nodes := Fields.forall₂_of_zip hnames.symm hi
  obtain ⟨⟨name', entry⟩, hp⟩ := exists_mem_zip (Fields.length_eq_of_names_eq hnames).symm hm
  obtain ⟨rfl, hst⟩ := (List.forall₂_iff_zip.1 hall).2 hp
  have hentry : (name', entry) ∈ fields := mem_arranged_iff.1 (List.of_mem_zip hp).1
  have hpart : entry ∈ (c.layout sub).parts := by
    rw [hl]
    exact List.mem_map_of_mem hentry
  refine ⟨entry, founded_of_part h hpart hst, hentry, hw _ hp, ?_⟩
  rcases c.place_cases s' id sub with ⟨v, -, hv⟩ | ⟨-, hrecord⟩
  · obtain ⟨w, hw, -⟩ := parts_opened (hv ▸ hpart)
    exact Or.inl ⟨w, hw⟩
  · have hplace := hrecord fields hl
    have hwithin := hplace.entries_subset (record_mem_entries fields)
    have hdistinct : nodes.Distinct := by
      rw [Fields.Distinct, hnames]
      exact distinct_arranged (h.fits.distinct fields hwithin)
    exact Or.inr ⟨hplace, Fields.get?_of_mem hdistinct hm⟩

/-- What a node owns was built for a part of its entry. If that part is a validation, it is a
field of a record. -/
theorem Founded.owned (h : Founded c s s' sub id) (ho : s'.Owns id child) :
    ∃ part, Founded c s s' part child ∧
      ((∃ v, part = .literal v) ∨ Place s' sub id part child) ∧
      (part.isValidation = true → ∃ fields nodes name, Place s' sub id (.record fields) id ∧
        c.layout sub = .record fields ∧ s'.fields? id = some nodes ∧
        nodes.get? name = some child ∧ (name, part) ∈ fields ∧ Wired s' id part child) := by
  obtain ⟨node, hn, hm⟩ := ho
  cases hl : c.layout sub with
  | shared shared => exact absurd (node_of_layout c hl) (h.free shared)
  | scalar d =>
    rw [h.stands.scalar_inv hl, Option.some.injEq] at hn
    simp [← hn, Node.children] at hm
  | list items =>
    obtain ⟨ids, hids, -, -⟩ := h.stands.list_inv hl
    cases Option.some.inj (hids.symm.trans hn)
    obtain ⟨item, hitem, hdata, hplace⟩ := h.item hl hids hm
    exact ⟨item, hitem, hplace, fun hv => by simp [hdata] at hv⟩
  | record fields =>
    obtain ⟨nodes, hnodes, -, -, -⟩ := h.stands.record_inv hl
    cases Option.some.inj (hnodes.symm.trans hn)
    obtain ⟨⟨name, child⟩, hfield, rfl⟩ := List.mem_map.1 hm
    obtain ⟨entry, hentry, hdeclared, hw, ⟨v, rfl⟩ | ⟨hplace, hget⟩⟩ := h.field hl hnodes hfield
    · exact ⟨_, hentry, Or.inl ⟨v, rfl⟩, fun hv => by simp [Config.isValidation] at hv⟩
    · have hfields : s'.fields? id = some nodes := by rw [fields?, hnodes]
      exact ⟨entry, hentry, Or.inr (hplace.trans (.field hfields hdeclared hget .here)),
        fun _ => ⟨fields, nodes, name, hplace, rfl, hfields, hget, hdeclared, hw⟩⟩
  | incomplete => exact absurd hl h.stands.not_incomplete
  | detached path =>
    obtain ⟨target, hnode⟩ := h.stands.detached_inv hl
    rw [hnode, Option.some.injEq] at hn
    simp [← hn, Node.children] at hm

/-- Where a segment leads among the nodes, it leads among the entries. -/
theorem Founded.child? (h : Founded c s s' sub id) (hs : s.Closed) (he : s.Extends s')
    {segment : String} (hc : s'.child? id segment = some child) :
    ∃ part, c.below? s sub segment = some part ∧ Founded c s s' part child := by
  rcases h.stands.child hs he h.fits segment with ⟨part, child', hb, hc', -, hst⟩ | ⟨-, hnone⟩
  · cases Option.some.inj (hc'.symm.trans hc)
    refine ⟨part, hb, founded_of_part h ?_ hst⟩
    unfold below? at hb
    cases hl : c.layout sub with
    | shared shared => exact absurd (node_of_layout c hl) (h.free shared)
    | list items =>
      rw [hl, Layout.below?] at hb
      obtain ⟨i, -, hi⟩ := Option.bind_eq_some_iff.1 hb
      exact List.mem_of_getElem? hi
    | record fields =>
      rw [hl, Layout.below?] at hb
      exact List.mem_map_of_mem (mem_arranged_iff.1 (Fields.mem_of_get? hb))
    | _ => simp [hl, Layout.below?] at hb
  · rw [hc] at hnone
    simp at hnone

theorem Founded.walk {path : Path} {segments : List String} (h : Founded c s s' sub id)
    (hs : s.Closed) (he : s.Extends s') (hw : s'.walk path id segments = .ok target) :
    ∃ part, c.descend? s sub segments = some part ∧ Founded c s s' part target := by
  induction segments generalizing sub id with
  | nil =>
    cases Except.ok.inj hw
    exact ⟨sub, rfl, h⟩
  | cons segment rest ih =>
    rw [Store.walk] at hw
    cases hc : s'.child? id segment with
    | none => simp [hc] at hw
    | some child =>
      simp only [hc] at hw
      obtain ⟨part, hb, hpart⟩ := h.child? hs he hc
      obtain ⟨last, hd, hlast⟩ := ih hpart hw
      exact ⟨last, by rw [descend?, hb]; exact hd, hlast⟩

/-- Where the path of a validation leads among the nodes, it leads among the entries. -/
theorem Founded.find {fields : List (String × Config)} {name : String} {path : Path}
    (h : Founded c s s' sub id) (hs : s.Closed) (he : s.Extends s')
    (hl : c.layout sub = .record fields) (hm : (name, .validates path) ∈ fields)
    (hfind : s'.find id path = .ok target) :
    ∃ entry, c.behind? s fields path = some entry ∧
      s'.isValidation target = entry.isValidation := by
  have hsub : sub.isValidation = false := Bool.eq_false_iff.2 fun hsub => by
    obtain ⟨path, rfl⟩ := (isValidation_iff sub).1 hsub
    simp [layout] at hl
  have hresolved := (h.flawless hsub).resolved hl hm
  obtain ⟨entry, hd, hentry⟩ := h.walk hs he hfind
  unfold behind?
  unfold unresolved? at hresolved
  cases hp : Path.segments path with
  | nil =>
    rw [hp, descend?, Option.some.injEq] at hd
    subst hd
    exact ⟨_, rfl, hentry.isValidation.trans hsub⟩
  | cons segment rest =>
    rw [hp] at hd hresolved
    cases hdata : (dataFields fields).get? segment with
    | none => simp [hdata] at hresolved
    | some first =>
      -- The first segment names a data field of the record, which its composite has too.
      have hfirst : c.below? s sub segment = some first := by
        rw [below?, hl, Layout.below?, arranged, Fields.get?_append, hdata]
        rfl
      rw [descend?, hfirst] at hd
      exact ⟨entry, by simpa only [hdata] using hd, hentry.isValidation⟩

/-! ## Compiled trees -/

theorem flawless_of_compile (hs : s.Closed) (hf : config.Fits s)
    (h : c.compile config s = .ok (root, s')) : c.Flawless s config := by
  have hreports := c.compile_reports hs hf
  rw [h] at hreports
  exact ⟨[], hreports.eq_nil⟩

theorem founded_of_compile (hs : s.Closed) (hf : config.Fits s) (hnode : config.NodeFree)
    (h : c.compile config s = .ok (root, s')) : Founded c s s' config root :=
  ⟨(c.build_spec config hf h).stands, hf, hnode, fun _ => flawless_of_compile hs hf h⟩

/-- Every node was built for an entry of the configuration, or for a part of a literal. -/
theorem founded_of_reaches (hs : s.Closed) (hf : config.Fits s) (hnode : config.NodeFree)
    (h : c.compile config s = .ok (root, s')) (hr : s'.Reaches root id) :
    ∃ sub, Founded c s s' sub id ∧ ((∃ v, sub = .literal v) ∨ Place s' config root sub id) := by
  induction hr with
  | refl => exact ⟨config, founded_of_compile hs hf hnode h, Or.inr .here⟩
  | tail _ ho ih =>
    obtain ⟨sub, hsub, hplace⟩ := ih
    obtain ⟨part, hpart, hbelow, -⟩ := hsub.owned ho
    refine ⟨part, hpart, ?_⟩
    rcases hplace with ⟨v, rfl⟩ | hplace
    · rcases hbelow with hliteral | hbelow
      · exact Or.inl hliteral
      · cases hbelow
        exact Or.inl ⟨v, rfl⟩
    · exact hbelow.imp_right hplace.trans

/-- A validation in a compiled tree is a field of the composite of a record, which declares it under
this name with its path. -/
theorem exists_declaration {check : NodeId} (hs : s.Closed) (hf : config.Fits s)
    (hnode : config.NodeFree) (h : c.compile config s = .ok (root, s'))
    (hr : s'.Reaches root check) (hn : s'.node? check = some (.validation target)) :
    ∃ sub fields nodes name path parent, Founded c s s' sub parent ∧
      c.layout sub = .record fields ∧ Place s' config root (.record fields) parent ∧
      s'.fields? parent = some nodes ∧ nodes.get? name = some check ∧
      (name, .validates path) ∈ fields ∧ s'.find parent path = .ok target := by
  have hcheck : s'.isValidation check = true := by rw [Store.isValidation, hn]
  rcases hr.cases_tail with rfl | ⟨parent, hparent, ho⟩
  · -- The entry at the top is no validation, since it was compiled.
    have htop := (flawless_of_compile hs hf h).isValidation
    rw [(founded_of_compile hs hf hnode h).isValidation, htop] at hcheck
    simp at hcheck
  · obtain ⟨sub, hsub, hplace⟩ := founded_of_reaches hs hf hnode h hparent
    obtain ⟨part, hpart, -, hfield⟩ := hsub.owned ho
    rw [hpart.isValidation] at hcheck
    obtain ⟨fields, nodes, name, hrecord, hl, hnodes, hget, hm, hw⟩ := hfield hcheck
    obtain ⟨path, rfl⟩ := (isValidation_iff part).1 hcheck
    obtain ⟨target', hn', hfind⟩ := hw path rfl
    rw [hn, Option.some.injEq, Node.validation.injEq] at hn'
    refine ⟨sub, fields, nodes, name, path, parent, hsub, hl, ?_, hnodes, hget, hm, hn' ▸ hfind⟩
    rcases hplace with ⟨v, rfl⟩ | hplace
    · cases hrecord
    · exact hplace.trans hrecord

/-- A validation in a compiled tree stands in the composite of a record, behind the name under which
the record declares it, and refers to the node that the declared path leads to from there. That is a
validation exactly if the entry behind the path is one, which takes a path of at least two
segments. -/
theorem compile_targets {check : NodeId} (hs : s.Closed) (hf : config.Fits s)
    (hnode : config.NodeFree) (h : c.compile config s = .ok (root, s'))
    (hr : s'.Reaches root check) (hn : s'.node? check = some (.validation target)) :
    s'.Has target ∧ ∃ fields nodes name path parent, .record fields ∈ config.entries ∧
      Place s' config root (.record fields) parent ∧ s'.fields? parent = some nodes ∧
      nodes.get? name = some check ∧ (name, .validates path) ∈ fields ∧
      s'.find parent path = .ok target ∧
      (s'.isValidation target = true ↔
        ∃ inner, c.behind? s fields path = some (.validates inner)) ∧
      (s'.isValidation target = true → 2 ≤ (Path.segments path).length) := by
  obtain ⟨sub, fields, nodes, name, path, parent, hsub, hl, hplace, hnodes, hget, hm, hfind⟩ :=
    exists_declaration hs hf hnode h hr hn
  have hb := c.build_spec config hf h
  have hhas : s'.Has target := (hb.closed hs).walk (has_of_node? (node?_of_fields? hnodes)) hfind
  obtain ⟨entry, hbehind, hentry⟩ := hsub.find hs hb.extends_ hl hm hfind
  have hiff : s'.isValidation target = true ↔
      ∃ inner, c.behind? s fields path = some (.validates inner) := by
    rw [hentry, isValidation_iff, hbehind]
    simp only [Option.some.injEq]
  refine ⟨hhas, fields, nodes, name, path, parent,
    hplace.entries_subset (record_mem_entries fields), hplace, hnodes, hget, hm, hfind, hiff,
    fun hv => ?_⟩
  obtain ⟨inner, hinner⟩ := hiff.1 hv
  exact two_le_of_behind? hinner

/-- A validation of a validation of an inner record. -/
def nestedConfig : Config :=
  .record [("inner", .record [("a", .literal (.bool true)), ("x", .validates "a")]),
    ("y", .validates "inner/x")]

/-- What `nestedConfig` is compiled to. -/
def nestedStore : Store :=
  ⟨#[some (.scalar (.ofDeclaration (.settled .bool (.bool true)))),
    some (.composite [("a", ⟨0⟩), ("x", ⟨2⟩)]), some (.validation ⟨0⟩),
    some (.composite [("inner", ⟨1⟩), ("y", ⟨4⟩)]), some (.validation ⟨2⟩)]⟩

theorem compile_nested : standard.compile nestedConfig ∅ = .ok (⟨3⟩, nestedStore) := rfl

theorem nodeFree_nestedConfig : nestedConfig.NodeFree := by
  simp [nestedConfig, NodeFree, entries, fieldEntries]

/-- The validation of the inner record itself stands behind its name and refers to a scalar. -/
theorem compile_targets_nested :
    nestedConfig.Fits ∅ ∧ nestedConfig.NodeFree ∧
      standard.compile nestedConfig ∅ = .ok (⟨3⟩, nestedStore) ∧
      nestedStore.Reaches ⟨3⟩ ⟨2⟩ ∧ nestedStore.node? ⟨2⟩ = some (.validation ⟨0⟩) ∧
      nestedStore.Has ⟨0⟩ ∧ ∃ fields nodes name path parent,
        .record fields ∈ nestedConfig.entries ∧
        Place nestedStore nestedConfig ⟨3⟩ (.record fields) parent ∧
        nestedStore.fields? parent = some nodes ∧ nodes.get? name = some ⟨2⟩ ∧
        (name, .validates path) ∈ fields ∧ nestedStore.find parent path = .ok ⟨0⟩ ∧
        ∀ inner, standard.behind? ∅ fields path ≠ some (.validates inner) := by
  have hf : nestedConfig.Fits ∅ := by decide
  have hr : nestedStore.Reaches ⟨3⟩ ⟨2⟩ :=
    .tail (.single (b := ⟨1⟩) ⟨_, rfl, by simp [Node.children]⟩) ⟨_, rfl, by simp [Node.children]⟩
  have hn : nestedStore.node? ⟨2⟩ = some (.validation ⟨0⟩) := rfl
  obtain ⟨hhas, fields, nodes, name, path, parent, hm, hplace, hnodes, hget, hcheck, hfind, hiff,
    -⟩ := compile_targets closed_empty hf nodeFree_nestedConfig compile_nested hr hn
  refine ⟨hf, nodeFree_nestedConfig, compile_nested, hr, hn, hhas, fields, nodes, name, path,
    parent, hm, hplace, hnodes, hget, hcheck, hfind, fun inner hinner => ?_⟩
  have hv := hiff.2 ⟨inner, hinner⟩
  exact absurd hv (by decide)

/-- A validation may come to refer to a validation, though no node was there before. -/
theorem compile_refers_to_validation :
    nestedConfig.NodeFree ∧ standard.compile nestedConfig ∅ = .ok (⟨3⟩, nestedStore) ∧
      nestedStore.Reaches ⟨3⟩ ⟨4⟩ ∧ nestedStore.node? ⟨4⟩ = some (.validation ⟨2⟩) ∧
      nestedStore.node? ⟨2⟩ = some (.validation ⟨0⟩) :=
  ⟨nodeFree_nestedConfig, compile_nested, .single ⟨_, rfl, by simp [Node.children]⟩, rfl, rfl⟩

end StateTree.Compiler
