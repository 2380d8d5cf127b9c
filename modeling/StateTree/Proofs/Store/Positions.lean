import StateTree.Proofs.Path
import StateTree.Proofs.Store.Assignment
import StateTree.Proofs.Store.Finding

/-
  Positions below a node: the branches that one takes on the way down, a field name at a composite
  and an index at a list. Where the nodes form a tree, no two positions have the same node
  (`along?_inj`), so two paths find one node exactly if they read alike (`find_eq_iff_branches`).
  Where besides no name is hidden by another one and each is one segment of a path, every node has
  a position, and the path that is joined along it finds the node (`find_ofSteps`).
-/

namespace StateTree

/-- The way from a node to one that it owns. -/
inductive Branch
  | field (name : String)
  | item (index : Nat)
deriving DecidableEq

/-- The segment that names the branch in the paths of error reports. -/
def Branch.text : Branch → String
  | .field name => name
  | .item index => toString index

namespace Store

variable {s s' : Store} {root id target : NodeId} {path : Path}

/-! ## Taking branches -/

def branchTo? (s : Store) (id : NodeId) : Branch → Option NodeId
  | .field name =>
    match s.node? id with
    | some (.composite fields) => fields.get? name
    | _ => none
  | .item index =>
    match s.node? id with
    | some (.list items) => items[index]?
    | _ => none

/-- The node at a position. -/
def along? (s : Store) (id : NodeId) : List Branch → Option NodeId
  | [] => some id
  | branch :: rest => (s.branchTo? id branch).bind fun child => s.along? child rest

/-- The branch that a segment names: what is applied to a list is read as a number. -/
def branch? (s : Store) (id : NodeId) (segment : String) : Option Branch :=
  match s.node? id with
  | some (.composite _) => some (.field segment)
  | some (.list _) => (Path.index? segment).map .item
  | _ => none

/-- The position that segments name. -/
def branches? (s : Store) (id : NodeId) : List String → Option (List Branch)
  | [] => some []
  | segment :: rest =>
    (s.branch? id segment).bind fun branch => (s.branchTo? id branch).bind fun child =>
      (s.branches? child rest).map (branch :: ·)

theorem child?_eq_branchTo? (s : Store) (id : NodeId) (segment : String) :
    s.child? id segment = (s.branch? id segment).bind (s.branchTo? id) := by
  unfold child? branch?
  cases hn : s.node? id with
  | none => rfl
  | some node =>
    cases node with
    | composite fields => simp only [Option.bind_some, branchTo?, hn]
    | list items => simp only [Option.bind_map, Function.comp_def, branchTo?, hn]
    | _ => rfl

/-- A path that leads to a node names a position, which is that of the node. -/
theorem follow_eq_ok_iff {segments : List String} : s.follow id segments = .ok target ↔
    ∃ branches, s.branches? id segments = some branches ∧ s.along? id branches = some target := by
  induction segments generalizing id with
  | nil => simp [follow, branches?, along?]
  | cons segment rest ih =>
    rw [follow, branches?, child?_eq_branchTo?]
    cases s.branch? id segment with
    | none => simp
    | some branch =>
      cases hc : s.branchTo? id branch with
      | none => simp [hc]
      | some child => simp [hc, ih, along?]

theorem find_iff_along : s.find id path = .ok target ↔
    ∃ branches, s.branches? id (Path.segments path) = some branches ∧
      s.along? id branches = some target := by
  rw [find_eq_ok_iff, follow_eq_ok_iff]

/-- A branch is the field of a composite or the item of a list. -/
theorem branchTo?_cases {branch : Branch} {child : NodeId}
    (h : s.branchTo? id branch = some child) :
    (∃ fields name, s.node? id = some (.composite fields) ∧ branch = .field name ∧
      fields.get? name = some child) ∨
    ∃ items index, s.node? id = some (.list items) ∧ branch = .item index ∧
      items[index]? = some child := by
  cases branch with
  | field name =>
    rw [branchTo?] at h
    split at h
    · next fields hn => exact Or.inl ⟨fields, name, hn, rfl, h⟩
    · simp at h
  | item index =>
    rw [branchTo?] at h
    split at h
    · next items hn => exact Or.inr ⟨items, index, hn, rfl, h⟩
    · simp at h

theorem owns_of_branchTo? {branch : Branch} {child : NodeId}
    (h : s.branchTo? id branch = some child) : s.Owns id child := by
  rcases branchTo?_cases h with ⟨fields, name, hn, -, hget⟩ | ⟨items, index, hn, -, hitem⟩
  · exact ⟨_, hn, List.mem_map_of_mem (Fields.mem_of_get? hget)⟩
  · exact ⟨_, hn, List.mem_of_getElem? hitem⟩

theorem reaches_of_along? {branches : List Branch} (h : s.along? id branches = some target) :
    s.Reaches id target := by
  induction branches generalizing id with
  | nil => exact Option.some.inj h ▸ .refl
  | cons branch rest ih =>
    obtain ⟨child, hc, hrest⟩ := Option.bind_eq_some_iff.1 h
    exact .head (owns_of_branchTo? hc) (ih hrest)

/-! ## One position for each node -/

/-- No child stands at two branches of one node. -/
theorem OwnsTree.branchTo?_inj {branch branch' : Branch} {child : NodeId} (ht : s.OwnsTree id)
    (h : s.branchTo? id branch = some child) (h' : s.branchTo? id branch' = some child) :
    branch = branch' := by
  rcases branchTo?_cases h with ⟨fields, name, hn, rfl, hget⟩ | ⟨items, i, hn, rfl, hitem⟩
  · rcases branchTo?_cases h' with ⟨fields', name', hn', rfl, hget'⟩ | ⟨_, _, hn', -⟩
    · cases Option.some.inj (hn.symm.trans hn')
      have hone := List.inj_on_of_nodup_map (ht.nodup hn) (Fields.mem_of_get? hget)
        (Fields.mem_of_get? hget') rfl
      exact congrArg Branch.field (Prod.mk.inj hone).1
    · cases Option.some.inj (hn.symm.trans hn')
  · rcases branchTo?_cases h' with ⟨_, _, hn', -⟩ | ⟨items', j, hn', rfl, hitem'⟩
    · cases Option.some.inj (hn.symm.trans hn')
    · cases Option.some.inj (hn.symm.trans hn')
      obtain ⟨hi, -⟩ := List.getElem?_eq_some_iff.1 hitem
      exact congrArg Branch.item
        ((List.getElem?_inj hi (ht.nodup hn)).1 (hitem.trans hitem'.symm))

theorem OwnsTree.not_reaches_owner {child : NodeId} (h : s.OwnsTree id) (ho : s.Owns id child) :
    ¬ s.Reaches child id := by
  obtain ⟨-, hacc⟩ := h
  induction hacc generalizing child with
  | intro id _ ih =>
    intro hr
    -- A ring through the node is one through its child too.
    rcases hr.cases_head with rfl | ⟨next, hnext, hr⟩
    · exact ih child ho ho .refl
    · exact ih child ho hnext (hr.tail ho)

/-- In a tree, no two positions have the same node. -/
theorem along?_inj {front back : List Branch} (ht : s.OwnsTree id)
    (h : s.along? id front = some target) (h' : s.along? id back = some target) :
    front = back := by
  induction front generalizing id back with
  | nil =>
    cases Option.some.inj h
    cases back with
    | nil => rfl
    | cons branch rest =>
      obtain ⟨child, hc, hrest⟩ := Option.bind_eq_some_iff.1 h'
      exact absurd (reaches_of_along? hrest) (ht.not_reaches_owner (owns_of_branchTo? hc))
  | cons branch front ih =>
    obtain ⟨child, hc, hfront⟩ := Option.bind_eq_some_iff.1 h
    cases back with
    | nil =>
      cases Option.some.inj h'
      exact absurd (reaches_of_along? hfront) (ht.not_reaches_owner (owns_of_branchTo? hc))
    | cons branch' back =>
      obtain ⟨child', hc', hback⟩ := Option.bind_eq_some_iff.1 h'
      obtain ⟨node, hn, hm⟩ := owns_of_branchTo? hc
      obtain ⟨node', hn', hm'⟩ := owns_of_branchTo? hc'
      cases Option.some.inj (hn.symm.trans hn')
      -- Both positions go on from the same child, since the target is below one of them only.
      obtain rfl : child' = child := by_contra fun hne =>
        ht.not_reaches hn hm (reaches_of_along? hfront) hm' hne (reaches_of_along? hback)
      rw [ht.branchTo?_inj hc hc', ih (ht.of_owns ⟨node, hn, hm⟩) hfront hback]

/-- Two paths that lead to nodes lead to the same one exactly if they name the same position. -/
theorem find_eq_iff_branches {path' : Path} {target' : NodeId} (ht : s.OwnsTree id)
    (h : s.find id path = .ok target) (h' : s.find id path' = .ok target') :
    ∃ branches branches', s.branches? id (Path.segments path) = some branches ∧
      s.branches? id (Path.segments path') = some branches' ∧
      (target = target' ↔ branches = branches') := by
  obtain ⟨branches, hb, ha⟩ := find_iff_along.1 h
  obtain ⟨branches', hb', ha'⟩ := find_iff_along.1 h'
  refine ⟨branches, branches', hb, hb', ?_⟩
  constructor
  · rintro rfl
    exact along?_inj ht ha ha'
  · rintro rfl
    exact Option.some.inj (ha.symm.trans ha')

/-! ## A path for each position -/

/-- Below the root, no composite has two fields of one name, and each name is one segment of a
path. -/
def Legible (s : Store) (root : NodeId) : Prop :=
  ∀ id fields, s.Reaches root id → s.node? id = some (.composite fields) →
    fields.Distinct ∧ ∀ field ∈ fields, Path.IsSegment field.1

theorem Legible.of_owns {child : NodeId} (h : s.Legible root) (ho : s.Owns root child) :
    s.Legible child := fun id fields hr hn => h id fields (hr.head ho) hn

theorem Legible.of_children {node : Node} (hn : s.node? id = some node)
    (hfields : ∀ fields, node = .composite fields →
      fields.Distinct ∧ ∀ field ∈ fields, Path.IsSegment field.1)
    (hc : ∀ child ∈ node.children, s.Legible child) : s.Legible id := by
  intro other fields hr ho
  rcases hr.cases_head with rfl | ⟨child, ⟨node', hn', hm⟩, hr⟩
  · exact hfields fields (Option.some.inj (hn.symm.trans ho))
  · cases Option.some.inj (hn.symm.trans hn')
    exact hc child hm other fields hr ho

theorem Legible.intact (hl : s.Legible root) (h : Intact root s s') : s'.Legible root := by
  intro id fields hr hn
  have hr' := h.reaches_iff.1 hr
  refine hl id fields hr' ?_
  have ho := h id hr'
  rw [outline?, hn] at ho
  obtain ⟨node, hn', he⟩ := Option.map_eq_some_iff.1 ho.symm
  cases node <;> simp_all [Node.outline]

/-- Every node that is owned stands at a branch of its owner. -/
theorem Legible.exists_branch {child : NodeId} (h : s.Legible root) (ho : s.Owns root child) :
    ∃ branch, s.branchTo? root branch = some child := by
  obtain ⟨node, hn, hm⟩ := ho
  cases node with
  | scalar slot => simp [Node.children] at hm
  | validation target => simp [Node.children] at hm
  | list items =>
    obtain ⟨i, hi⟩ := List.mem_iff_getElem?.1 hm
    exact ⟨.item i, by rw [branchTo?, hn]; exact hi⟩
  | composite fields =>
    obtain ⟨⟨name, child⟩, hfield, rfl⟩ := List.mem_map.1 hm
    refine ⟨.field name, ?_⟩
    rw [branchTo?, hn]
    exact Fields.get?_of_mem (h root fields .refl hn).1 hfield

theorem Legible.exists_along (h : s.Legible root) (hr : s.Reaches root id) :
    ∃ branches, s.along? root branches = some id := by
  induction hr using Relation.ReflTransGen.head_induction_on with
  | refl => exact ⟨[], rfl⟩
  | head ho _ ih =>
    obtain ⟨branch, hbranch⟩ := h.exists_branch ho
    obtain ⟨branches, hbranches⟩ := ih (h.of_owns ho)
    exact ⟨branch :: branches, by rw [along?, hbranch]; exact hbranches⟩

/-- The text of a branch that is there is one segment, and it names that branch. -/
theorem Legible.branch?_text {branch : Branch} {child : NodeId} (h : s.Legible root)
    (hb : s.branchTo? root branch = some child) :
    Path.IsSegment branch.text ∧ s.branch? root branch.text = some branch := by
  rcases branchTo?_cases hb with ⟨fields, name, hn, rfl, hget⟩ | ⟨items, index, hn, rfl, -⟩
  · exact ⟨(h root fields .refl hn).2 _ (Fields.mem_of_get? hget), by rw [branch?, hn]; rfl⟩
  · refine ⟨Path.isSegment_toString index, ?_⟩
    rw [branch?, hn, Branch.text, Path.index?_toString, Option.map_some]

theorem Legible.branches?_texts {branches : List Branch} (h : s.Legible root)
    (ha : s.along? root branches = some target) :
    (∀ text ∈ branches.map Branch.text, Path.IsSegment text) ∧
      s.branches? root (branches.map Branch.text) = some branches := by
  induction branches generalizing root with
  | nil => exact ⟨by simp, rfl⟩
  | cons branch rest ih =>
    obtain ⟨child, hc, hrest⟩ := Option.bind_eq_some_iff.1 ha
    obtain ⟨hsegment, hbranch⟩ := h.branch?_text hc
    obtain ⟨hsegments, hbranches⟩ := ih (h.of_owns (owns_of_branchTo? hc)) hrest
    refine ⟨List.forall_mem_cons.2 ⟨hsegment, hsegments⟩, ?_⟩
    rw [List.map_cons, branches?, hbranch, Option.bind_some, hc, Option.bind_some, hbranches,
      Option.map_some]

/-- The path that is joined along a position leads there. -/
theorem Legible.find_ofSteps {branches : List Branch} (h : s.Legible root)
    (ha : s.along? root branches = some target) :
    s.find root (Path.ofSteps (branches.map Branch.text)) = .ok target := by
  obtain ⟨hsegments, hbranches⟩ := h.branches?_texts ha
  refine find_iff_along.2 ⟨branches, ?_, ha⟩
  rw [Path.segments_ofSteps hsegments, hbranches]

end Store

end StateTree
