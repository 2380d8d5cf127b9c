import StateTree.Proofs.Compile.Attempt
import StateTree.Proofs.Compile.Typed
import StateTree.Proofs.Compile.Wiring
import StateTree.Proofs.Store.Assignment

/-
  Setting scalars of a compiled tree. What is built for an entry without nodes is a tree of its own:
  all of it is new, and none of it is owned twice (`fresh_build`). Main statement: in whatever state
  a program has brought a compiled tree, a call of `set` either fails and changes nothing, or it
  puts the value at the place that its path names and nowhere else; and two calls do not depend on
  their order, unless they are for the same scalar and the second one replaces what the first one
  set (`set_compiled`).
-/

namespace StateTree

open Config

namespace Store

variable {s s' s'' : Store} {id : NodeId}

/-! ## Trees of new nodes -/

/-- From one store to the other, the node has been built with all that is below it, as a tree. -/
structure Fresh (s s' : Store) (id : NodeId) : Prop where
  new : ∀ other, s'.Reaches id other → s.size ≤ other.index
  tree : s'.OwnsTree id

theorem Fresh.of_children {node : Node} (hn : s'.node? id = some node) (hid : s.size ≤ id.index)
    (ha : node.children.Pairwise s'.Apart) (hc : ∀ child ∈ node.children, Fresh s s' child) :
    Fresh s s' id where
  new := fun other hr => by
    rcases hr.cases_head with rfl | ⟨child, ⟨node', hn', hm⟩, hr⟩
    · exact hid
    · cases Option.some.inj (hn.symm.trans hn')
      exact (hc child hm).new other hr
  tree := .of_children hn ha fun child hm => (hc child hm).tree

theorem Fresh.extend (h : Fresh s s' id) (hs : s'.Closed) (hid : s'.Has id)
    (he : s'.Extends s'') : Fresh s s'' id :=
  have hi := (he.kept hs hid).intact
  ⟨fun other hr => h.new other (hi.reaches_iff.1 hr), h.tree.intact hi⟩

/-- What is new since a later time is new since an earlier one. -/
theorem Fresh.weaken (h : Fresh s' s'' id) (he : s.Extends s') : Fresh s s'' id :=
  ⟨fun other hr => Nat.le_trans he.size_le (h.new other hr), h.tree⟩

theorem Apart.extend {a b : NodeId} (h : s.Apart a b) (hs : s.Closed) (ha : s.Has a)
    (hb : s.Has b) (he : s.Extends s') : s'.Apart a b :=
  h.intact (he.kept hs ha).intact (he.kept hs hb).intact

/-- A new tree has no node in common with what was there before. -/
theorem Fresh.apart {old : NodeId} (h : Fresh s s' id) (hs : s.Closed) (hold : s.Has old)
    (he : s.Extends s') : s'.Apart old id := fun other hr hr' => by
  have hhas := hs.reaches hold ((he.reaches hs hold).1 hr)
  exact absurd (index_lt_size hhas) (Nat.not_lt.2 (h.new other hr'))

/-- The validations of a new record are new, and they are leaves of their own. -/
theorem fresh_checks {data : Fields NodeId} {checks : List (String × Option NodeId)}
    (hd : (checks.map (·.1)).Nodup) (hnew : ∀ check ∈ checks, check.1 ∉ data.names) :
    ∃ added : Fields NodeId,
      (s.record data checks).2.node? s.next = some (.composite (data ++ added)) ∧
      (∀ field ∈ added, Fresh s (s.record data checks).2 field.2) ∧
      (added.map (·.2)).Pairwise (s.record data checks).2.Apart := by
  obtain ⟨-, added, -, hids, hn, hval⟩ := record_spec s data checks hd hnew
  have hlen : checks.length = added.length := by
    simpa using (congrArg List.length hids).symm
  have hleaf : ∀ field ∈ added, ∃ target,
      (s.record data checks).2.node? field.2 = some (.validation target) := fun field hm => by
    obtain ⟨check, hp⟩ := exists_mem_zip hlen hm
    exact ⟨_, hval _ hp⟩
  refine ⟨added, hn, fun field hm => ?_, ?_⟩
  · obtain ⟨target, hleaf⟩ := hleaf field hm
    have hindex : field.2.index ∈ added.map (·.2.index) := List.mem_map.2 ⟨field, hm, rfl⟩
    rw [hids, List.mem_range'_1] at hindex
    exact .of_children hleaf (by omega) .nil (by simp [Node.children])
  · have hnodup : (added.map (·.2.index)).Nodup := hids ▸ List.nodup_range'
    refine List.pairwise_map.2 ((List.pairwise_map.1 hnodup).imp_of_mem ?_)
    intro field field' hm hm' hne other hr hr'
    obtain ⟨target, hleaf₁⟩ := hleaf field hm
    obtain ⟨target', hleaf₂⟩ := hleaf field' hm'
    rw [← eq_of_reaches_leaf hleaf₁ rfl hr, ← eq_of_reaches_leaf hleaf₂ rfl hr'] at hne
    exact hne rfl

theorem fresh_record {data : Fields NodeId} {checks : List (String × Option NodeId)}
    (hs : s'.Closed) (he : s.Extends s') (hd : (checks.map (·.1)).Nodup)
    (hnew : ∀ check ∈ checks, check.1 ∉ data.names) (hhas : ∀ field ∈ data, s'.Has field.2)
    (hfresh : ∀ field ∈ data, Fresh s s' field.2)
    (hapart : (data.map (·.2)).Pairwise s'.Apart) :
    Fresh s (s'.record data checks).2 (s'.record data checks).1 := by
  obtain ⟨added, hn, hadded, hapart'⟩ := fresh_checks (s := s') hd hnew
  have hext := (record_spec s' data checks hd hnew).1
  have hhas' : ∀ id ∈ data.map (·.2), s'.Has id := fun id hm => by
    obtain ⟨field, hfield, rfl⟩ := List.mem_map.1 hm
    exact hhas field hfield
  refine .of_children hn he.size_le ?_ fun child hm => ?_
  · show ((data ++ added).map (·.2)).Pairwise _
    rw [List.map_append, List.pairwise_append]
    refine ⟨hapart.imp_of_mem fun ha hb h => h.extend hs (hhas' _ ha) (hhas' _ hb) hext,
      hapart', fun old hm id hm' => ?_⟩
    obtain ⟨field, hfield, rfl⟩ := List.mem_map.1 hm'
    exact (hadded field hfield).apart hs (hhas' old hm) hext
  · obtain ⟨field, hfield, rfl⟩ := List.mem_map.1 hm
    rcases List.mem_append.1 hfield with hfield | hfield
    · exact (hfresh field hfield).extend hs (hhas field hfield) hext
    · exact (hadded field hfield).weaken he

end Store

/-! ## Setting in place -/

namespace Attempt

variable {s : Store} {root target : NodeId} {path : Path}

/-- Sets the scalar at a path, in the store as it stands. -/
def set (root : NodeId) (path : Path) (value : Value) : Attempt Unit := do
  let target ← check (·.find root path)
  check fun s =>
    match s.slot? target with
    | some _ => .ok ()
    | none => .error (.notAScalar path)
  make fun s => ((), s.assign target value)

theorem set_apply (root : NodeId) (path : Path) (value : Value) (s : Store) :
    set root path value s =
      match s.set root path value with
      | .ok s' => (.ok (), s')
      | .error e => (.error e, s) := by
  cases hf : s.find root path with
  | error e =>
    rw [Store.set_of_find_error hf]
    simp only [set, bind_apply, check, hf]
  | ok target =>
    cases hslot : s.slot? target with
    | none =>
      rw [Store.set_of_slot?_none hf hslot]
      simp only [set, bind_apply, check, hf, hslot]
    | some slot =>
      rw [Store.set_eq_assign hf hslot]
      simp only [set, bind_apply, check, make, hf, hslot]

theorem commit_set (root : NodeId) (path : Path) (value : Value) (s : Store) :
    (set root path value).commit s = (s.set root path value).map ((), ·) := by
  rw [commit, set_apply]
  cases s.set root path value <;> rfl

theorem set_of_find_error {e : Error} (h : s.find root path = .error e) (value : Value) :
    set root path value s = (.error e, s) := by
  rw [set_apply, Store.set_of_find_error h]

theorem set_of_slot?_none (h : s.find root path = .ok target) (hslot : s.slot? target = none)
    (value : Value) : set root path value s = (.error (.notAScalar path), s) := by
  rw [set_apply, Store.set_of_slot?_none h hslot]

end Attempt

/-! ## Building trees -/

namespace Compiler

open Store

variable {c : Compiler} {s s' s₁ : Store} {config : Config} {root : NodeId}

/-- Every successful build of the entry makes a new tree. -/
def MakesTree (c : Compiler) (config : Config) : Prop :=
  ∀ ⦃path : Path⦄ ⦃s s' : Store⦄ ⦃id : NodeId⦄, s.Closed → config.Fits s → config.NodeFree →
    c.build config path s = .ok (id, s') → Fresh s s' id

theorem fresh_buildItems {items : List Config} (hmakes : ∀ item ∈ items, MakesTree c item)
    {path : Path} {index : Nat} {ids : List NodeId} (hs : s.Closed)
    (hf : ∀ item ∈ items, item.Fits s) (hnode : ∀ item ∈ items, item.NodeFree)
    (h : c.buildItems items path index s = .ok (ids, s')) :
    (∀ id ∈ ids, Fresh s s' id) ∧ ids.Pairwise s'.Apart := by
  induction items generalizing s index ids with
  | nil =>
    cases Except.ok.inj h
    exact ⟨by simp, .nil⟩
  | cons item rest ih =>
    rw [buildItems] at h
    obtain ⟨⟨id, s₁⟩, hb, h⟩ := bind_eq_ok.1 h
    obtain ⟨⟨ids', s₂⟩, hbs, h⟩ := bind_eq_ok.1 h
    cases Except.ok.inj h
    have hone := c.build_spec item (hf item List.mem_cons_self) hb
    have hs₁ := hone.closed hs
    have hf' : ∀ item ∈ rest, item.Fits s₁ := fun i hi =>
      (hf i (List.mem_cons_of_mem _ hi)).extend hone.extends_
    have hext := (buildItems_spec (fun i _ => c.build_spec i) hf' hbs).1
    -- What is built after the first item is newer than all that the first item reaches.
    have hfirst := hmakes item List.mem_cons_self hs (hf item List.mem_cons_self)
      (hnode item List.mem_cons_self) hb
    obtain ⟨hfresh, hapart⟩ := ih (fun i hi => hmakes i (List.mem_cons_of_mem _ hi)) hs₁ hf'
      (fun i hi => hnode i (List.mem_cons_of_mem _ hi)) hbs
    refine ⟨List.forall_mem_cons.2 ⟨hfirst.extend hs₁ hone.has hext, fun i hi => ?_⟩,
      .cons (fun i hi => (hfresh i hi).apart hs₁ hone.has hext) hapart⟩
    exact (hfresh i hi).weaken hone.extends_

theorem fresh_buildFields {fields : List (String × Config)}
    (hmakes : ∀ field ∈ fields, MakesTree c field.2) {path : Path} {data : Fields NodeId}
    (hs : s.Closed) (hf : ∀ field ∈ fields, field.2.Fits s)
    (hnode : ∀ field ∈ fields, field.2.NodeFree)
    (h : c.buildFields fields path s = .ok (data, s')) :
    (∀ field ∈ data, Fresh s s' field.2) ∧ (data.map (·.2)).Pairwise s'.Apart := by
  induction fields generalizing s data with
  | nil =>
    cases Except.ok.inj h
    exact ⟨by simp, .nil⟩
  | cons field rest ih =>
    obtain ⟨name, entry⟩ := field
    have hmakes' : ∀ field ∈ rest, MakesTree c field.2 := fun f hm =>
      hmakes f (List.mem_cons_of_mem _ hm)
    have hnode' : ∀ field ∈ rest, field.2.NodeFree := fun f hm =>
      hnode f (List.mem_cons_of_mem _ hm)
    cases hv : entry.isValidation with
    | true =>
      obtain ⟨target, rfl⟩ := (isValidation_iff entry).1 hv
      rw [buildFields] at h
      exact ih hmakes' hs (fun f hm => hf f (List.mem_cons_of_mem _ hm)) hnode' h
    | false =>
      rw [buildFields_cons c name hv] at h
      obtain ⟨⟨id, s₁⟩, hb, h⟩ := bind_eq_ok.1 h
      obtain ⟨⟨ids, s₂⟩, hbs, h⟩ := bind_eq_ok.1 h
      cases Except.ok.inj h
      have hone := c.build_spec entry (hf _ List.mem_cons_self) hb
      have hs₁ := hone.closed hs
      have hf' : ∀ field ∈ rest, field.2.Fits s₁ := fun f hm =>
        (hf f (List.mem_cons_of_mem _ hm)).extend hone.extends_
      have hext := (buildFields_spec (fun f _ => c.build_spec f.2) hf' hbs).1
      have hfirst := hmakes _ List.mem_cons_self hs (hf _ List.mem_cons_self)
        (hnode _ List.mem_cons_self) hb
      obtain ⟨hfresh, hapart⟩ := ih hmakes' hs₁ hf' hnode' hbs
      refine ⟨List.forall_mem_cons.2 ⟨hfirst.extend hs₁ hone.has hext, fun f hm => ?_⟩,
        .cons (fun id hm => ?_) hapart⟩
      · exact (hfresh f hm).weaken hone.extends_
      · obtain ⟨field, hfield, rfl⟩ := List.mem_map.1 hm
        exact (hfresh field hfield).apart hs₁ hone.has hext

theorem fresh_build (c : Compiler) (config : Config) : MakesTree c config := by
  induction config using c.layout_induction with
  | step config ih =>
    intro path s s' id hs hf hnode h
    rw [build_eq] at h
    have hfit : ∀ sub ∈ (c.layout config).parts, sub.Fits s := fun sub hm => fits_of_parts hf hm
    have hfree : ∀ sub ∈ (c.layout config).parts, sub.NodeFree := fun sub hm =>
      nodeFree_of_parts hnode hm
    cases hl : c.layout config with
    | shared shared => exact absurd (node_of_layout c hl) (hnode shared)
    | scalar d =>
      rw [hl] at h
      cases Except.ok.inj h
      have hn : (s.scalar d).2.node? s.next = some (.scalar (.ofDeclaration d)) := by
        rw [Store.scalar, node?_alloc, if_pos rfl]
      exact .of_children hn (Nat.le_refl _) .nil (by simp [Node.children])
    | list items =>
      rw [hl] at h ih hfit hfree
      obtain ⟨⟨ids, s₁⟩, hb, h⟩ := bind_eq_ok.1 h
      cases Except.ok.inj h
      obtain ⟨hext, hclosed, -, hhas, -⟩ := buildItems_spec (fun i _ => c.build_spec i) hfit hb
      obtain ⟨hfresh, hapart⟩ := fresh_buildItems ih hs hfit hfree hb
      have hs₁ := hclosed hs
      have hext' := extends_alloc s₁ (.list ids)
      have hn : (s₁.list ids).2.node? s₁.next = some (.list ids) := by
        rw [Store.list, node?_alloc, if_pos rfl]
      exact .of_children hn hext.size_le
        (hapart.imp_of_mem fun ha hb h => h.extend hs₁ (hhas _ ha) (hhas _ hb) hext')
        fun child hm => (hfresh child hm).extend hs₁ (hhas child hm) hext'
    | record fields =>
      rw [hl] at h ih hfit hfree
      obtain ⟨⟨data, s₁⟩, hb, h⟩ := bind_eq_ok.1 h
      obtain ⟨targets, hr, h⟩ := bind_eq_ok.1 h
      cases Except.ok.inj h
      have hpart : ∀ field ∈ fields, field.2 ∈ (Layout.record fields).parts := fun field hm =>
        List.mem_map_of_mem hm
      have hfits : ∀ field ∈ fields, field.2.Fits s := fun f hm => hfit f.2 (hpart f hm)
      obtain ⟨hext, hclosed, hnames, hhas, -⟩ :=
        buildFields_spec (fun f _ => c.build_spec f.2) hfits hb
      obtain ⟨hfresh, hapart⟩ := fresh_buildFields (fun f hm => ih f.2 (hpart f hm)) hs hfits
        (fun f hm => hfree f.2 (hpart f hm)) hb
      obtain ⟨hnodup, hnew⟩ := names_of_resolveAll (hf.extend hext) hl hnames hr
      exact fresh_record (hclosed hs) hext hnodup hnew hhas hfresh hapart
    | incomplete => simp [hl, assemble] at h
    | detached path => simp [hl, assemble] at h

/-! ## Compiled trees -/

/-- What is compiled is a tree, and stays one for as long as the program holds on to it. -/
theorem ownsTree_of_run (hs : s.Closed) (hf : config.Fits s) (hnode : config.NodeFree)
    (h : c.compile config s = .ok (root, s')) (hrun : Run root s' s₁) :
    s₁.Closed ∧ s₁.Has root ∧ s₁.OwnsTree root := by
  have hb := c.build_spec config hf h
  have hi := intact_of_run hrun
  exact ⟨closed_of_run hrun (hb.closed hs), hi.has .refl hb.has,
    (c.fresh_build config hs hf hnode h).tree.intact hi⟩

/-- In any state of a compiled tree, a call of `set` succeeds exactly if the path leads to a scalar.
If it does, the value takes the place in the snapshot that the path names, and all other nodes stay
as they are; otherwise the call reports why and changes nothing at all. A second call for the same
scalar leaves no trace of the first one, and calls for two scalars may change places. -/
theorem set_compiled (hs : s.Closed) (hf : config.Fits s) (hnode : config.NodeFree)
    (h : c.compile config s = .ok (root, s')) (hrun : Run root s' s₁) (path : Path)
    (value : Value) :
    (Attempt.set root path value).commit s₁ = (s₁.set root path value).map ((), ·) ∧
    ((∃ s₂, s₁.set root path value = .ok s₂) ↔
      ∃ target, s₁.find root path = .ok target ∧ (s₁.slot? target).isSome) ∧
    (∀ e, s₁.find root path = .error e → Attempt.set root path value s₁ = (.error e, s₁)) ∧
    (∀ target, s₁.find root path = .ok target → s₁.slot? target = none →
      Attempt.set root path value s₁ = (.error (.notAScalar path), s₁)) ∧
    ∀ target slot, s₁.find root path = .ok target → s₁.slot? target = some slot →
      ∃ s₂, s₁.set root path value = .ok s₂ ∧ SetAt root path value target s₁ s₂ ∧
        ∀ path' value' target' slot', s₁.find root path' = .ok target' →
          s₁.slot? target' = some slot' →
          (target' = target → s₂.set root path' value' = s₁.set root path' value') ∧
          (target' ≠ target → ∃ s₂' s₃, s₁.set root path' value' = .ok s₂' ∧
            s₂.set root path' value' = .ok s₃ ∧ s₂'.set root path value = .ok s₃) := by
  obtain ⟨hs₁, hroot, ht⟩ := ownsTree_of_run hs hf hnode h hrun
  refine ⟨Attempt.commit_set root path value s₁, set_eq_ok_iff,
    fun e he => Attempt.set_of_find_error he value,
    fun target hfind hslot => Attempt.set_of_slot?_none hfind hslot value,
    fun target slot hfind hslot => ?_⟩
  refine ⟨_, set_eq_assign hfind hslot value, setAt_assign hs₁ hroot ht hfind hslot value,
    fun path' value' target' slot' hfind' hslot' => ⟨?_, fun hne => ?_⟩⟩
  · rintro rfl
    exact set_assign_self hslot hfind' value value'
  · have hlate := set_eq_assign ((find_assign s₁ target value root path').trans hfind')
      ((slot?_assign_of_ne hne value).trans hslot') value'
    have hlate' := set_eq_assign ((find_assign s₁ target' value' root path).trans hfind)
      ((slot?_assign_of_ne hne.symm value').trans hslot) value
    rw [← assign_comm hne hslot hslot' value value'] at hlate'
    exact ⟨_, _, set_eq_assign hfind' hslot' value', hlate, hlate'⟩

/-- Two records of one value each, which validate themselves. -/
def switchesConfig : Config :=
  .sequence [.record [("on", .literal (.bool true)), ("self", .validates "")],
    .record [("on", .literal (.bool true)), ("self", .validates "")]]

/-- What `switchesConfig` is compiled to. -/
def switchesStore : Store :=
  ⟨#[some (.scalar (.ofDeclaration (.settled .bool (.bool true)))),
    some (.composite [("on", ⟨0⟩), ("self", ⟨2⟩)]), some (.validation ⟨1⟩),
    some (.scalar (.ofDeclaration (.settled .bool (.bool true)))),
    some (.composite [("on", ⟨3⟩), ("self", ⟨5⟩)]), some (.validation ⟨4⟩),
    some (.list [⟨1⟩, ⟨4⟩])]⟩

theorem set_compiled_switches :
    standard.compile switchesConfig ∅ = .ok (⟨6⟩, switchesStore) ∧ switchesConfig.Fits ∅ ∧
      switchesConfig.NodeFree ∧ Run ⟨6⟩ switchesStore (switchesStore.assign ⟨3⟩ .null) ∧
      Attempt.set ⟨6⟩ "01/" (.bool false) (switchesStore.assign ⟨3⟩ .null) =
        (.error (.notAScalar "01/"), switchesStore.assign ⟨3⟩ .null) ∧
      ∃ s₂, (switchesStore.assign ⟨3⟩ .null).set ⟨6⟩ "/00//on" (.bool false) = .ok s₂ ∧
        SetAt ⟨6⟩ "/00//on" (.bool false) ⟨0⟩ (switchesStore.assign ⟨3⟩ .null) s₂ ∧
        s₂.set ⟨6⟩ "0/on" (.bool true) =
          (switchesStore.assign ⟨3⟩ .null).set ⟨6⟩ "0/on" (.bool true) ∧
        ∃ s₂' s₃, (switchesStore.assign ⟨3⟩ .null).set ⟨6⟩ "1/on" (.bool true) = .ok s₂' ∧
          s₂.set ⟨6⟩ "1/on" (.bool true) = .ok s₃ ∧
          s₂'.set ⟨6⟩ "/00//on" (.bool false) = .ok s₃ := by
  have hf : switchesConfig.Fits ∅ := by decide
  have hnode : switchesConfig.NodeFree := by
    simp [switchesConfig, NodeFree, entries, fieldEntries, itemEntries]
  have hc : standard.compile switchesConfig ∅ = .ok (⟨6⟩, switchesStore) := rfl
  have hrun : Run ⟨6⟩ switchesStore (switchesStore.assign ⟨3⟩ .null) :=
    .single (.assign ⟨3⟩ .null)
  obtain ⟨-, -, -, hrefused, -⟩ := set_compiled closed_empty hf hnode hc hrun "01/" (.bool false)
  obtain ⟨-, -, -, -, hset⟩ := set_compiled closed_empty hf hnode hc hrun "/00//on" (.bool false)
  obtain ⟨s₂, hs₂, hat, hsecond⟩ := hset ⟨0⟩ _ rfl rfl
  exact ⟨hc, hf, hnode, hrun, hrefused ⟨4⟩ rfl rfl, s₂, hs₂, hat,
    (hsecond "0/on" (.bool true) ⟨0⟩ _ rfl rfl).1 rfl,
    (hsecond "1/on" (.bool true) ⟨3⟩ _ rfl rfl).2 (by decide)⟩

end Compiler

end StateTree
