import StateTree.Proofs.Compile.Attempt
import StateTree.Proofs.Compile.Literal
import StateTree.Proofs.Compile.Wiring
import StateTree.Proofs.Path
import StateTree.Proofs.Store.Locality
import StateTree.Proofs.Typing

/-
  What compiling leaves alone. All nodes that were there stay as they are, also where compiling
  fails halfway and what it built so far is removed again. In a compiled tree every node that the
  configuration holds stands at its own place (`walk_of_at`), and all other nodes are new
  (`compile_frame`). So trees compiled from configurations without nodes have no node in common
  with anything that was there before, and do not see each other's calls.
-/

namespace StateTree

open Config Store

variable {c : Compiler} {s s' : Store} {config sub : Config} {id node : NodeId}

/-! ## Positions -/

namespace Config

/-- `config.At segments sub` says that `sub` is `config` itself or the entry within it at the end
of these segments. A shape around an entry takes no segment. -/
inductive At : Config → List String → Config → Prop
  | here {config : Config} : At config [] config
  | shape {inner sub : Config} {required : Bool} {segments : List String}
      (h : At inner segments sub) : At (.shape inner required) segments sub
  | item {items : List Config} {index : Nat} {item sub : Config} {segments : List String}
      (hm : items[index]? = some item) (h : At item segments sub) :
      At (.sequence items) (toString index :: segments) sub
  | field {fields : List (String × Config)} {name : String} {entry sub : Config}
      {segments : List String} (hm : (name, entry) ∈ fields) (h : At entry segments sub) :
      At (.record fields) (name :: segments) sub

/-- What holds a node spells no literal. -/
theorem At.toLiteral? {segments : List String} (h : config.At segments (.node node)) :
    config.toLiteral? = none := by
  generalize hsub : Config.node node = sub at h
  induction h with
  | here => rw [← hsub, Config.toLiteral?]
  | shape _ _ => rw [Config.toLiteral?]
  | @item items index item sub segments hm _ ih =>
    rw [Config.toLiteral?, Option.map_eq_none_iff]
    refine Option.eq_none_iff_forall_ne_some.2 fun vs hvs => ?_
    obtain ⟨v, hv⟩ := exists_of_forall₂ (forall₂_of_literalItems? hvs) (List.mem_of_getElem? hm)
    rw [ih hsub] at hv
    simp at hv
  | field hm _ ih =>
    rw [Config.toLiteral?, Option.map_eq_none_iff]
    refine Option.eq_none_iff_forall_ne_some.2 fun vs hvs => ?_
    obtain ⟨v, -, hv⟩ := exists_of_forall₂ (forall₂_of_literalFields? hvs) hm
    rw [ih hsub] at hv
    simp at hv

end Config

namespace Compiler

theorem layout_sequence_of_toLiteral? {items : List Config}
    (h : (Config.sequence items).toLiteral? = none) :
    c.layout (.sequence items) = .list items := by
  rw [layout]
  cases hd : c.scalarOf? (.sequence items) with
  | some d =>
    obtain ⟨v, hv⟩ := toLiteral?_of_scalarOf? hd
    rw [h] at hv
    simp at hv
  | none => rfl

/-- A node that the configuration holds stands at the end of the segments that lead to it. -/
theorem walk_of_at {path : Path} {segments : List String} (h : config.At segments (.node node))
    (hst : Stands c s' config id) (hs : s.Closed) (he : s.Extends s') (hf : config.Fits s) :
    s'.walk path id segments = .ok node := by
  generalize hsub : Config.node node = sub at h
  induction h generalizing id with
  | here =>
    subst hsub
    rw [hst.shared_inv (by rw [layout]), walk]
  | shape _ ih =>
    exact ih (hst.of_layout_eq (by rw [layout])) (hf.of_subset (entries_inner _ _)) hsub
  | @item items index item sub segments hm hat ih =>
    have hl : c.layout (.sequence items) = .list items :=
      layout_sequence_of_toLiteral? (At.item hm (hsub ▸ hat)).toLiteral?
    have hbelow : c.below? s (.sequence items) (toString index) = some item := by
      rw [below?, hl, Layout.below?, Path.index?_toString]
      exact hm
    rcases hst.child hs he hf (toString index) with ⟨part, child, hb, hc, -, hpart⟩ | ⟨hb, -⟩
    · cases Option.some.inj (hb.symm.trans hbelow)
      rw [walk, hc]
      exact ih hpart (hf.of_subset (entries_item (List.mem_of_getElem? hm))) hsub
    · rw [hbelow] at hb
      simp at hb
  | @field fields name entry sub segments hm _ ih =>
    have hl : c.layout (.record fields) = .record fields :=
      (c.layout_record fields).resolve_left fun hempty => List.ne_nil_of_mem hm hempty.1
    have hbelow : c.below? s (.record fields) name = some entry := by
      rw [below?, hl, Layout.below?]
      exact Fields.get?_of_mem (distinct_arranged (hf.distinct fields (record_mem_entries fields)))
        (mem_arranged_iff.2 hm)
    rcases hst.child hs he hf name with ⟨part, child, hb, hc, -, hpart⟩ | ⟨hb, -⟩
    · cases Option.some.inj (hb.symm.trans hbelow)
      rw [walk, hc]
      exact ih hpart (hf.of_subset (entries_field hm)) hsub
    · rw [hbelow] at hb
      simp at hb

/-! ## What was there before -/

variable {root other : NodeId}

/-- What is held stays as it was, with all that it owns, once all that nobody holds is removed. -/
theorem kept_sweep_attempt (c : Compiler) (hs : s.Closed) (hf : config.Fits s) (path : Path)
    {held : List NodeId} (hm : id ∈ held) (hid : s.Has id) :
    Kept id s ((c.attempt config path s).2.sweep held) := by
  have hext := (c.growth_of_attempt hf path).extends_
  exact (hext.kept hs hid).trans (kept_sweepWithin hm _ _)

/-- A node of a compiled tree is new, unless one of the nodes that the configuration holds reached
it before. -/
theorem new_or_reached (hf : config.Fits s)
    (h : c.compile config s = .ok (root, s')) (hr : s'.Reaches root id) :
    s.size ≤ id.index ∨ ∃ node, .node node ∈ config.entries ∧ s.Reaches node id := by
  -- An attempt may be given the nodes of the configuration, and whatever is still unused.
  have hgrows := c.attempt_grows config Path.root hf
    (fun _ => Or.inl) (fun id => (Or.inr : _ → .node id ∈ config.entries ∨ s.size ≤ id.index))
  unfold Grows at hgrows
  rw [compile_eq_ok.1 h] at hgrows
  obtain ⟨hg, hroot⟩ := hgrows
  rcases hg.reaches (Or.inr (hroot root rfl).2) hr with hnew | ⟨node, hnode | hnode, hreach⟩
  · exact Or.inl hnew
  · exact Or.inr ⟨node, hnode, hreach⟩
  · -- An unused identity owns nothing.
    rcases hreach.cases_head with rfl | ⟨child, ho, -⟩
    · exact Or.inl hnode
    · exact absurd (index_lt_size ho.has) (Nat.not_lt.2 hnode)

theorem apart_of_nodeFree (hs : s.Closed) (hf : config.Fits s) (hnode : config.NodeFree)
    (h : c.compile config s = .ok (root, s')) (hother : s.Has other) : s'.Apart root other := by
  intro id hroot hid
  have hext := (c.build_spec config hf h).extends_
  have hold : s.Has id := hs.reaches hother ((hext.reaches hs hother).1 hid)
  rcases new_or_reached hf h hroot with hnew | ⟨node, hm, -⟩
  · exact absurd (index_lt_size hold) (Nat.not_lt.2 hnew)
  · exact hnode node hm

/-- Compiling is an attempt of which a failure leaves nothing. Successful or not, it leaves all
nodes as they are that were there before, and goes on to do so once everything is removed that
nobody holds. A compiled tree has the nodes of the configuration at their places, and is new
otherwise. If the configuration has none, the tree and whatever was there before have no node in
common, and no calls on the one show in a snapshot of the other. -/
theorem compile_frame (c : Compiler) (hs : s.Closed) (hf : config.Fits s) :
    c.compile config s = (c.attempt config Path.root).commit s ∧
    (∀ id, s.Has id → (c.attempt config Path.root s).2.node? id = s.node? id) ∧
    (∀ held, ∀ id ∈ held, s.Has id → Kept id s ((c.attempt config Path.root s).2.sweep held)) ∧
    ∀ root s', c.compile config s = .ok (root, s') →
      (∀ segments node, config.At segments (.node node) →
        ∀ path, s'.walk path root segments = .ok node) ∧
      (∀ id, s'.Reaches root id →
        s.size ≤ id.index ∨ ∃ node, .node node ∈ config.entries ∧ s.Reaches node id) ∧
      (config.NodeFree → ∀ other, s.Has other → s'.Apart root other ∧
        (∀ s'', Calls root s' s'' → s''.value? other = s.value? other) ∧
        ∀ s'', Calls other s' s'' → s''.value? root = s'.value? root) := by
  refine ⟨(c.commit_attempt config Path.root s).symm,
    fun id hid => (c.growth_of_attempt hf Path.root).extends_.node? hid,
    fun held id hm hid => kept_sweep_attempt c hs hf Path.root hm hid,
    fun root s' h => ⟨fun segments node hat path => ?_, fun id hr => new_or_reached hf h hr,
      fun hnode other hother => ?_⟩⟩
  · have hb := c.build_spec config hf h
    exact walk_of_at hat hb.stands hs hb.extends_ hf
  · have ha := apart_of_nodeFree hs hf hnode h hother
    have hext := (c.build_spec config hf h).extends_
    exact ⟨ha, fun s'' hcalls => (hcalls.value? ha).trans (hext.value? hs hother),
      fun s'' hcalls => hcalls.value? ha.symm⟩

/-- What a record of one value is compiled to. -/
def pairStore : Store :=
  ⟨#[some (.scalar (.ofDeclaration (.settled .bool (.bool true)))),
    some (.composite [("on", ⟨0⟩)])]⟩

/-- The same record once more. -/
def twinConfig : Config := .record [("on", .literal (.bool true))]

/-- A configuration that fails when two of its fields have been built, one over that record. -/
def brokenConfig : Config :=
  .record [("pairs", .sequence [.node ⟨1⟩, .literal .null]),
    ("rest", .pending (.ofSchema (Schema.primitive .bool).asRequired))]

theorem compile_frame_pair :
    pairStore.Closed ∧ brokenConfig.Fits pairStore ∧
      standard.compile brokenConfig pairStore = .error (.missingDefault "rest") ∧
      (standard.attempt brokenConfig Path.root pairStore).2.size = 4 ∧
      (standard.attempt brokenConfig Path.root pairStore).2.node? ⟨1⟩ = pairStore.node? ⟨1⟩ ∧
      twinConfig.Fits pairStore ∧ twinConfig.NodeFree ∧
      ∃ s', standard.compile twinConfig pairStore = .ok (⟨3⟩, s') ∧ s'.Apart ⟨3⟩ ⟨1⟩ ∧
        (s'.assign ⟨2⟩ (.bool false)).value? ⟨1⟩ = pairStore.value? ⟨1⟩ := by
  have hpair : standard.compile twinConfig ∅ = .ok (⟨1⟩, pairStore) := rfl
  have hs : pairStore.Closed :=
    (standard.build_spec twinConfig (by decide) hpair).closed closed_empty
  have hbroken : brokenConfig.Fits pairStore := by decide
  have htwin : twinConfig.Fits pairStore := by decide
  have hnode : twinConfig.NodeFree := by simp [twinConfig, NodeFree, entries, fieldEntries]
  obtain ⟨s', h⟩ : ∃ s', standard.compile twinConfig pairStore = .ok (⟨3⟩, s') := ⟨_, rfl⟩
  obtain ⟨-, hsame, -, -⟩ := compile_frame standard hs hbroken
  obtain ⟨-, -, -, hbuilt⟩ := compile_frame standard hs htwin
  obtain ⟨ha, hvalue, -⟩ := (hbuilt ⟨3⟩ s' h).2.2 hnode ⟨1⟩ rfl
  have hcalls : Calls ⟨3⟩ s' (s'.assign ⟨2⟩ (.bool false)) := by
    cases Except.ok.inj h
    exact .single ⟨⟨2⟩, .single ⟨_, rfl, List.mem_cons_self⟩, .assign (.bool false)⟩
  exact ⟨hs, hbroken, rfl, rfl, hsame ⟨1⟩ rfl, htwin, hnode, s', h, ha, hvalue _ hcalls⟩

end Compiler

end StateTree
