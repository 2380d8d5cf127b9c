import StateTree.Proofs.Compile.Attempt
import StateTree.Proofs.Compile.Defects
import StateTree.Proofs.Store.Acyclic

/-
  The two ways to treat literal containers. Where one compiler keeps a literal array or an empty
  record whole, as one scalar, the other one takes it apart, and everywhere else they agree
  (`loosens_layout`). Main statement: whatever can be compiled with containers kept whole can be
  compiled with containers taken apart, every path that leads to a node of the first tree leads to
  a node of the second one, and both nodes carry the same data (`compile_structural`). Where no
  ring was built before, both nodes do have snapshots to compare (`exists_value?_of_compile`).
-/

namespace StateTree

namespace Compiler

open Config Store

variable {c c' : Compiler} {s s₁ s₂ : Store} {config : Config} {id id' : NodeId}

/-! ## Layouts under both policies -/

/-- The same compiler, but literal containers are kept whole. -/
def whole (c : Compiler) : Compiler := ⟨⟨.whole, c.settings.instances⟩, c.isElement⟩

/-- The same compiler, but literal containers are taken apart. -/
def structural (c : Compiler) : Compiler := ⟨⟨.structural, c.settings.instances⟩, c.isElement⟩

/-- `Loosens l l'`: the second layout is the first one, or it takes apart an array or an empty
object that the first one keeps whole. -/
inductive Loosens : Layout → Layout → Prop
  | same (layout : Layout) : Loosens layout layout
  | list {d : Declaration} {items : List Config} {vs : List Value}
      (hd : Slot.initialValue d = .array vs) (hi : literalItems? items = some vs) :
      Loosens (.scalar d) (.list items)
  | record {d : Declaration} (hd : Slot.initialValue d = .object []) :
      Loosens (.scalar d) (.record [])

theorem layout_sequence_structural (c : Compiler) (items : List Config) :
    c.structural.layout (.sequence items) = .list items := by
  have hnone : c.structural.scalarOf? (.sequence items) = none := if_pos ⟨rfl, rfl⟩
  rw [layout, hnone]

theorem layout_emptyRecord_structural (c : Compiler) :
    c.structural.layout (.record []) = .record [] := by
  have hnone : c.structural.scalarOf? (.record []) = none := if_pos ⟨rfl, rfl⟩
  rw [layout, hnone]

/-- The policies differ on arrays and on empty objects only. -/
theorem scalarOfValue?_structural (c : Compiler) (v : Value) :
    c.structural.scalarOfValue? v = c.whole.scalarOfValue? v ∨ (∃ vs, v = .array vs) ∨
      v = .object [] := by
  cases v with
  | array vs => exact Or.inr (Or.inl ⟨vs, rfl⟩)
  | object fields =>
    cases fields with
    | nil => exact Or.inr (Or.inr rfl)
    | cons field rest => exact Or.inl rfl
  | _ => exact Or.inl rfl

theorem loosens_literal (c : Compiler) (v : Value) :
    Loosens (c.whole.layout (.literal v)) (c.structural.layout (.literal v)) := by
  rw [layout, layout]
  rcases c.scalarOfValue?_structural v with he | ⟨vs, rfl⟩ | rfl
  · rw [he]
    exact .same _
  · cases hd : c.whole.scalarOfValue? (.array vs) with
    | none => exact .same _
    | some d =>
      have hv := Inference.initialValue_of_ofValue? (ofValue?_of_scalarOfValue? hd)
      exact .list hv (literalItems?_literal vs)
  · cases hd : c.whole.scalarOfValue? (.object []) with
    | none => exact .same _
    | some d => exact .record (Inference.initialValue_of_ofValue? (ofValue?_of_scalarOfValue? hd))

theorem loosens_layout (c : Compiler) : ∀ config,
    Loosens (c.whole.layout config) (c.structural.layout config)
  | .node _ => .same _
  | .pending _ => .same _
  | .scalar _ => .same _
  | .shape inner _ => by
    rw [layout, layout]
    exact loosens_layout c inner
  | .validates _ => .same _
  | .sequence items => by
    rw [layout_sequence_structural, layout]
    cases hd : c.whole.scalarOf? (.sequence items) with
    | none => exact .same _
    | some d =>
      obtain ⟨v, hv⟩ := toLiteral?_of_scalarOf? hd
      have hdefault := Inference.initialValue_of_ofConfig? (ofConfig?_of_scalarOf? hd) hv
      rw [toLiteral?] at hv
      obtain ⟨vs, hvs, rfl⟩ := Option.map_eq_some_iff.1 hv
      exact .list hdefault hvs
  | .record [] => by
    rw [layout_emptyRecord_structural, layout]
    exact .record rfl
  | .record (field :: rest) => .same _
  | .literal v => loosens_literal c v

/-! ## Defects under both policies -/

/-- Wherever one compiler makes a node below an entry, the other one makes one for the same
entry. -/
def Covers (c c' : Compiler) (s : Store) : Prop :=
  ∀ ⦃config : Config⦄ ⦃segment : String⦄ ⦃sub : Config⦄,
    c.below? s config segment = some sub → c'.below? s config segment = some sub

theorem covers_structural (c : Compiler) (s : Store) : Covers c.whole c.structural s := by
  intro config segment sub h
  have hl := c.loosens_layout config
  unfold below? at h ⊢
  generalize c.whole.layout config = l at h hl
  generalize c.structural.layout config = l' at hl
  cases hl with
  | same => exact h
  | list => simp [Layout.below?] at h
  | record => simp [Layout.below?] at h

theorem firstMissing_of_covers (h : Covers c c' s) {segments : List String}
    (hm : c.firstMissing s config segments = none) : c'.firstMissing s config segments = none := by
  induction segments generalizing config with
  | nil => rfl
  | cons segment rest ih =>
    rw [firstMissing] at hm ⊢
    cases hb : c.below? s config segment with
    | none => simp [hb] at hm
    | some sub =>
      simp only [hb] at hm
      rw [h hb]
      exact ih hm

theorem unresolved?_of_covers (h : Covers c c' s) {fields : List (String × Config)} {path : Path}
    (hm : c.unresolved? s fields path = none) : c'.unresolved? s fields path = none := by
  unfold unresolved? at hm ⊢
  cases hp : Path.segments path with
  | nil => rfl
  | cons segment rest =>
    cases hg : (dataFields fields).get? segment with
    | none => simp [hp, hg] at hm
    | some entry =>
      simp only [hp, hg, Option.map_eq_none_iff] at hm ⊢
      exact firstMissing_of_covers h hm

theorem checkDefects_of_covers (h : Covers c c' s) {fields : List (String × Config)}
    (hd : c.checkDefects s fields = []) : c'.checkDefects s fields = [] := by
  unfold checkDefects at hd ⊢
  rw [List.filterMap_eq_nil_iff] at hd ⊢
  exact fun check hm => unresolved?_of_covers h (hd check hm)

mutual

/-- What one compiler compiles is compiled by every compiler that covers it. -/
theorem defects_of_covers (h : Covers c c' s) : ∀ {config : Config} {steps : List String},
    c.defects s config steps = [] → c'.defects s config steps = []
  | .node _, _, _ => by rw [defects]
  | .pending _, _, hd => by simp [defects] at hd
  | .scalar d, _, hd => by rwa [defects] at hd ⊢
  | .shape inner _, _, hd => by
    rw [defects] at hd ⊢
    exact defects_of_covers h hd
  | .validates _, _, hd => by simp [defects] at hd
  | .sequence items, _, hd => by
    rw [defects] at hd ⊢
    exact itemDefects_of_covers h hd
  | .record fields, _, hd => by
    rw [defects, List.append_eq_nil_iff] at hd ⊢
    exact ⟨fieldDefects_of_covers h hd.1, checkDefects_of_covers h hd.2⟩
  | .literal _, _, _ => by rw [defects]

theorem itemDefects_of_covers (h : Covers c c' s) : ∀ {items : List Config} {steps : List String}
    {index : Nat}, c.itemDefects s items steps index = [] → c'.itemDefects s items steps index = []
  | [], _, _, _ => by rw [itemDefects]
  | item :: rest, _, _, hd => by
    rw [itemDefects, List.append_eq_nil_iff] at hd ⊢
    exact ⟨defects_of_covers h hd.1, itemDefects_of_covers h hd.2⟩

theorem fieldDefects_of_covers (h : Covers c c' s) : ∀ {fields : List (String × Config)}
    {steps : List String}, c.fieldDefects s fields steps = [] → c'.fieldDefects s fields steps = []
  | [], _, _ => by rw [fieldDefects]
  | (name, entry) :: rest, _, hd => by
    cases hv : entry.isValidation with
    | true =>
      obtain ⟨target, rfl⟩ := (isValidation_iff entry).1 hv
      rw [fieldDefects] at hd ⊢
      exact fieldDefects_of_covers h hd
    | false =>
      rw [fieldDefects_cons _ s name hv, List.append_eq_nil_iff] at hd ⊢
      exact ⟨defects_of_covers h hd.1, fieldDefects_of_covers h hd.2⟩

end

/-! ## Counterparts -/

/-- `Mirrors node node'`: the second node is of the kind of the first one, or it takes apart the
array or the empty object that the first one holds. -/
inductive Mirrors : Node → Node → Prop
  | same {node node' : Node} (h : node'.kindName = node.kindName) : Mirrors node node'
  | list {slot : Slot} {vs : List Value} {items : List NodeId} (h : slot.value = .array vs) :
      Mirrors (.scalar slot) (.list items)
  | composite {slot : Slot} {fields : Fields NodeId} (h : slot.value = .object []) :
      Mirrors (.scalar slot) (.composite fields)

/-- Two nodes that were built for one entry, in `s₁` with containers kept whole and in `s₂` with
containers taken apart. -/
def Counterparts (c : Compiler) (s s₁ s₂ : Store) (id id' : NodeId) : Prop :=
  ∃ config : Config, config.Fits s ∧ Stands c.whole s₁ config id ∧ Stands c.structural s₂ config id'

/-- Nodes that stand for one layout are of one kind. -/
theorem kindName_of_layout_eq (he₁ : s.Extends s₁) (he₂ : s.Extends s₂) (hf : config.Fits s)
    (h : Stands c s₁ config id) (h' : Stands c' s₂ config id')
    (hl : c'.layout config = c.layout config) :
    ∃ node node', s₁.node? id = some node ∧ s₂.node? id' = some node' ∧
      node'.kindName = node.kindName := by
  cases hc : c.layout config with
  | shared shared =>
    have hhas : s.Has shared := hf.has shared (node_of_layout c hc)
    rw [h.shared_inv hc, h'.shared_inv (hl.trans hc), he₁.node? hhas, he₂.node? hhas]
    obtain ⟨node, hn⟩ := Option.isSome_iff_exists.1 hhas
    exact ⟨node, node, hn, hn, rfl⟩
  | scalar d => exact ⟨_, _, h.scalar_inv hc, h'.scalar_inv (hl.trans hc), rfl⟩
  | list items =>
    obtain ⟨ids, hn, -⟩ := h.list_inv hc
    obtain ⟨ids', hn', -⟩ := h'.list_inv (hl.trans hc)
    exact ⟨_, _, hn, hn', rfl⟩
  | record fields =>
    obtain ⟨nodes, hn, -⟩ := h.record_inv hc
    obtain ⟨nodes', hn', -⟩ := h'.record_inv (hl.trans hc)
    exact ⟨_, _, hn, hn', rfl⟩
  | incomplete => exact absurd hc h.not_incomplete
  | detached path =>
    obtain ⟨target, hn⟩ := h.detached_inv hc
    obtain ⟨target', hn'⟩ := h'.detached_inv (hl.trans hc)
    exact ⟨_, _, hn, hn', rfl⟩

theorem Counterparts.mirrors (h : Counterparts c s s₁ s₂ id id') (he₁ : s.Extends s₁)
    (he₂ : s.Extends s₂) :
    ∃ node node', s₁.node? id = some node ∧ s₂.node? id' = some node' ∧ Mirrors node node' := by
  obtain ⟨config, hf, h₁, h₂⟩ := h
  have hl := c.loosens_layout config
  generalize hw : c.whole.layout config = l at hl
  generalize hs : c.structural.layout config = l' at hl
  cases hl with
  | same =>
    obtain ⟨node, node', hn, hn', hk⟩ := kindName_of_layout_eq he₁ he₂ hf h₁ h₂ (hs.trans hw.symm)
    exact ⟨node, node', hn, hn', .same hk⟩
  | list hd =>
    obtain ⟨ids, hn, -⟩ := h₂.list_inv hs
    exact ⟨_, _, h₁.scalar_inv hw, hn, .list hd⟩
  | record hd =>
    obtain ⟨nodes, hn, -⟩ := h₂.record_inv hs
    exact ⟨_, _, h₁.scalar_inv hw, hn, .composite hd⟩

theorem Counterparts.isValidation_eq (h : Counterparts c s s₁ s₂ id id') (he₁ : s.Extends s₁)
    (he₂ : s.Extends s₂) : s₁.isValidation id = s₂.isValidation id' := by
  obtain ⟨node, node', hn, hn', hm⟩ := h.mirrors he₁ he₂
  unfold Store.isValidation
  rw [hn, hn']
  cases hm with
  | same hk => cases node <;> cases node' <;> simp_all [Node.kindName]
  | list => rfl
  | composite => rfl

/-- What stands for a literal has the data of the literal. -/
theorem Stands.plainValue? {v : Value} (h : Stands c s config id)
    (hv : config.toLiteral? = some v) : s.plainValue? id = some v.plain := by
  obtain ⟨w, hw, hc⟩ := h.carries hv
  rw [Store.plainValue?, hw, Option.map_some, hc.plain_eq]

theorem Stands.plainValue?_scalar {d : Declaration} (h : Stands c s config id)
    (hl : c.layout config = .scalar d) :
    s.plainValue? id = some (Slot.initialValue d).plain := by
  rw [Store.plainValue?, value?_scalar (h.scalar_inv hl)]
  rfl

/-- Counterparts carry the same data. -/
theorem plainValue?_eq (hs : s.Closed) (he₁ : s.Extends s₁) (he₂ : s.Extends s₂)
    (hf : config.Fits s) (h₁ : Stands c.whole s₁ config id)
    (h₂ : Stands c.structural s₂ config id') : s₁.plainValue? id = s₂.plainValue? id' := by
  -- The induction follows the first tree, the coarser one. Where that stops at a scalar and the
  -- second tree goes on, the entry spells a literal, so both carry that literal.
  induction config using c.whole.layout_induction generalizing id id' with
  | step config ih =>
    have hl := c.loosens_layout config
    have hfit : ∀ sub ∈ (c.whole.layout config).parts, sub.Fits s := fun sub hm =>
      fits_of_parts hf hm
    generalize hw : c.whole.layout config = l at hl ih hfit
    generalize hst : c.structural.layout config = l' at hl
    cases hl with
    | @list d items vs hd hi =>
      have hsequence := h₂.of_layout_eq ((c.layout_sequence_structural items).trans hst.symm)
      have hv : (Config.sequence items).toLiteral? = some (.array vs) := by
        rw [toLiteral?, hi]
        rfl
      rw [h₁.plainValue?_scalar hw, hd, hsequence.plainValue? hv]
    | record hd =>
      have hrecord := h₂.of_layout_eq (c.layout_emptyRecord_structural.trans hst.symm)
      have hv : (Config.record []).toLiteral? = some (.object []) := rfl
      rw [h₁.plainValue?_scalar hw, hd, hrecord.plainValue? hv]
    | same =>
      cases l with
      | shared shared =>
        have hhas : s.Has shared := hf.has shared (node_of_layout _ hw)
        rw [h₁.shared_inv hw, h₂.shared_inv hst, Store.plainValue?, Store.plainValue?,
          he₁.value? hs hhas, he₂.value? hs hhas]
      | scalar d =>
        rw [h₁.plainValue?_scalar hw, h₂.plainValue?_scalar hst]
      | list items =>
        obtain ⟨ids, hn, hall⟩ := h₁.items hw
        obtain ⟨ids', hn', hall'⟩ := h₂.items hst
        exact plainValue?_eq_of_items hn hn' (forall₂_of_forall₂ hall hall'
          fun item hm id id' hone hone' => ih item hm (hfit item hm) hone hone')
      | record fields =>
        obtain ⟨nodes, hn, hall⟩ := h₁.fields hw
        obtain ⟨nodes', hn', hall'⟩ := h₂.fields hst
        refine plainValue?_eq_of_fields hn hn' (forall₂_of_forall₂ hall hall'
          fun field hm node node' hone hone' => ?_)
        have hp : field.2 ∈ (Layout.record fields).parts :=
          List.mem_map_of_mem (mem_arranged_iff.1 hm)
        have hpair : Counterparts c s s₁ s₂ node.2 node'.2 :=
          ⟨field.2, hfit _ hp, hone.2, hone'.2⟩
        exact ⟨hone.1.symm.trans hone'.1, hpair.isValidation_eq he₁ he₂,
          ih field.2 hp (hfit _ hp) hone.2 hone'.2⟩
      | incomplete => exact absurd hw h₁.not_incomplete
      | detached path =>
        obtain ⟨target, hn⟩ := h₁.detached_inv hw
        obtain ⟨target', hn'⟩ := h₂.detached_inv hst
        rw [Store.plainValue?, Store.plainValue?, value?_validation hn, value?_validation hn']

theorem Counterparts.child (h : Counterparts c s s₁ s₂ id id') (hs : s.Closed)
    (he₁ : s.Extends s₁) (he₂ : s.Extends s₂) {segment : String} {child : NodeId}
    (hc : s₁.child? id segment = some child) :
    ∃ child', s₂.child? id' segment = some child' ∧ Counterparts c s s₁ s₂ child child' := by
  obtain ⟨config, hf, h₁, h₂⟩ := h
  rcases h₁.child hs he₁ hf segment with ⟨sub, child₁, hb, hc₁, hfit, hsub⟩ | ⟨-, hnone⟩
  · have hb' := c.covers_structural s hb
    rcases h₂.child hs he₂ hf segment with ⟨sub', child', hb₂, hc', -, hsub'⟩ | ⟨hnone, -⟩
    · cases Option.some.inj (hb'.symm.trans hb₂)
      cases Option.some.inj (hc₁.symm.trans hc)
      exact ⟨child', hc', sub, hfit, hsub, hsub'⟩
    · rw [hb'] at hnone
      simp at hnone
  · rw [hnone] at hc
    simp at hc

/-- A path that leads to a node of the first tree leads to its counterpart in the second one. -/
theorem Counterparts.walk (h : Counterparts c s s₁ s₂ id id') (hs : s.Closed)
    (he₁ : s.Extends s₁) (he₂ : s.Extends s₂) {path : Path} {segments : List String}
    {target : NodeId} (hw : s₁.walk path id segments = .ok target) :
    ∃ target', s₂.walk path id' segments = .ok target' ∧
      Counterparts c s s₁ s₂ target target' := by
  induction segments generalizing id id' with
  | nil =>
    cases Except.ok.inj hw
    exact ⟨id', rfl, h⟩
  | cons segment rest ih =>
    rw [Store.walk] at hw ⊢
    cases hc : s₁.child? id segment with
    | none => simp [hc] at hw
    | some child =>
      simp only [hc] at hw
      obtain ⟨child', hc', hpair⟩ := h.child hs he₁ he₂ hc
      rw [hc']
      exact ih hpair hw

/-- Compiling closes no ring, so every node has a snapshot unless some had none before. -/
theorem exists_value?_of_compile (hs : s.Closed) (ha : s.Acyclic) (hf : config.Fits s)
    {root : NodeId} {s' : Store} (h : c.compile config s = .ok (root, s')) {target : NodeId}
    (hid : s'.Has target) : ∃ v, s'.value? target = some v := by
  have hg := c.growth_of_attempt hf Path.root
  rw [compile_eq_ok.1 h] at hg
  obtain ⟨tree, htree⟩ := Option.isSome_iff_exists.1
    ((hg.acyclic hs ha).isSome_tree? (hg.closed hs) hid)
  exact ⟨tree.value, by rw [Store.value?, htree, Option.map_some]⟩

/-- What is compiled with containers kept whole is compiled with containers taken apart too. Each
path that leads to a node of the first tree leads to a node of the second one, which carries the
same data and is of the same kind, unless it takes apart an array or an empty object. As long as
no ring was there before, both snapshots exist. -/
theorem compile_structural (c : Compiler) {config : Config} {s s₁ : Store} {id : NodeId}
    (hs : s.Closed) (hf : config.Fits s) (h : c.whole.compile config s = .ok (id, s₁)) :
    ∃ id' s₂, c.structural.compile config s = .ok (id', s₂) ∧
      ∀ path target, s₁.find id path = .ok target →
        ∃ target', s₂.find id' path = .ok target' ∧
          (s₁.value? target).map Value.plain = (s₂.value? target').map Value.plain ∧
          (s.Acyclic → ∃ v v', s₁.value? target = some v ∧ s₂.value? target' = some v' ∧
            v.plain = v'.plain) ∧
          ∃ node node', s₁.node? target = some node ∧ s₂.node? target' = some node' ∧
            Mirrors node node' := by
  have hnone : c.whole.defects s config [] = [] := by
    have hreports := c.whole.compile_reports hs hf
    rw [h] at hreports
    exact hreports.eq_nil
  have hreports := c.structural.compile_reports hs hf
  rw [defects_of_covers (c.covers_structural s) hnone] at hreports
  obtain ⟨⟨id', s₂⟩, h'⟩ := hreports
  have hb := c.whole.build_spec config hf h
  have hb' := c.structural.build_spec config hf h'
  have htop : Counterparts c s s₁ s₂ id id' := ⟨config, hf, hb.stands, hb'.stands⟩
  refine ⟨id', s₂, h', fun path target hfind => ?_⟩
  obtain ⟨target', hfind', hpair⟩ := htop.walk hs hb.extends_ hb'.extends_ hfind
  have hmirrors := hpair.mirrors hb.extends_ hb'.extends_
  obtain ⟨sub, hfit, hsub, hsub'⟩ := hpair
  have hplain := plainValue?_eq hs hb.extends_ hb'.extends_ hfit hsub hsub'
  refine ⟨target', hfind', hplain, fun ha => ?_, hmirrors⟩
  obtain ⟨v, hv⟩ := exists_value?_of_compile hs ha hf h ((hb.closed hs).walk hb.has hfind)
  obtain ⟨v', hv'⟩ := exists_value?_of_compile hs ha hf h' ((hb'.closed hs).walk hb'.has hfind')
  rw [Store.plainValue?, Store.plainValue?, hv, hv'] at hplain
  exact ⟨v, v', hv, hv', Option.some.inj hplain⟩

/-- A literal array, and a validation of it. -/
def tagsConfig : Config :=
  .record [("tags", .literal (.array [.bool true])), ("check", .validates "tags")]

/-- What `tagsConfig` is compiled to with containers kept whole. -/
def tagsStore : Store :=
  ⟨#[some (.scalar (.ofDeclaration (.settled .array (.array [.bool true])))),
    some (.composite [("tags", ⟨0⟩), ("check", ⟨2⟩)]), some (.validation ⟨0⟩)]⟩

/-- Taken apart, the array has the snapshot that it has as one scalar. -/
theorem compile_structural_tags :
    standard.whole.compile tagsConfig ∅ = .ok (⟨1⟩, tagsStore) ∧
      tagsStore.find ⟨1⟩ "tags" = .ok ⟨0⟩ ∧
      tagsStore.value? ⟨0⟩ = some (.array [.bool true]) ∧
      ∃ id' s₂, standard.structural.compile tagsConfig ∅ = .ok (id', s₂) ∧
        ∃ target', s₂.find id' "tags" = .ok target' ∧
          ∃ v, s₂.value? target' = some v ∧ v.plain = .array [.bool true] := by
  have hf : tagsConfig.Fits ∅ := by decide
  have hc : standard.whole.compile tagsConfig ∅ = .ok (⟨1⟩, tagsStore) := rfl
  have hfind : tagsStore.find ⟨1⟩ "tags" = .ok ⟨0⟩ := rfl
  have htags : tagsStore.value? ⟨0⟩ = some (.array [.bool true]) := rfl
  obtain ⟨id', s₂, hc', hall⟩ := compile_structural standard closed_empty hf hc
  obtain ⟨target', hfind', -, hexists, -⟩ := hall "tags" ⟨0⟩ hfind
  obtain ⟨v, v', hv, hv', hplain⟩ := hexists acyclic_empty
  cases Option.some.inj (htags.symm.trans hv)
  refine ⟨hc, hfind, htags, id', s₂, hc', target', hfind', v', hv', hplain.symm.trans ?_⟩
  simp [Value.plain, Value.plainItems]

end Compiler

end StateTree
