import StateTree.Proofs.Compile.Standing

/-
  What a successful build has done. `build_spec`: it extends the store, keeps it closed, and its
  node stands for the entry. This is all that later modules need to know about building. A record
  goes through both of its phases here (`record_built`): a path is followed among the data fields
  alone, and it leads to the same node from the finished composite.
-/

namespace StateTree.Compiler

open Config Store

variable {c : Compiler} {s s' : Store} {config : Config} {id : NodeId}

/-- What a build from `s` to `s'` has done for an entry. -/
structure Built (c : Compiler) (s s' : Store) (config : Config) (id : NodeId) : Prop where
  extends_ : s.Extends s'
  closed : s.Closed → s'.Closed
  has : s'.Has id
  stands : Stands c s' config id

/-- Every successful build of the entry is as `Built` says. -/
def Sound (c : Compiler) (config : Config) : Prop :=
  ∀ ⦃path : Path⦄ ⦃s s' : Store⦄ ⦃id : NodeId⦄, config.Fits s →
    c.build config path s = .ok (id, s') → Built c s s' config id

theorem buildItems_spec {items : List Config} (hsound : ∀ item ∈ items, Sound c item)
    {path : Path} {index : Nat} {ids : List NodeId}
    (hf : ∀ item ∈ items, item.Fits s)
    (h : c.buildItems items path index s = .ok (ids, s')) :
    s.Extends s' ∧ (s.Closed → s'.Closed) ∧ ids.length = items.length ∧
      (∀ id ∈ ids, s'.Has id) ∧ ∀ p ∈ items.zip ids, Stands c s' p.1 p.2 := by
  induction items generalizing s index ids with
  | nil =>
    cases Except.ok.inj h
    exact ⟨.refl _, id, rfl, by simp, by simp⟩
  | cons item rest ih =>
    rw [buildItems] at h
    obtain ⟨⟨id, s₁⟩, hb, h⟩ := bind_eq_ok.1 h
    obtain ⟨⟨ids', s₂⟩, hbs, h⟩ := bind_eq_ok.1 h
    cases Except.ok.inj h
    have hone := hsound item List.mem_cons_self (hf item List.mem_cons_self) hb
    obtain ⟨hext, hcl, hlen, hhas, hst⟩ := ih
      (fun i hi => hsound i (List.mem_cons_of_mem _ hi))
      (fun i hi => (hf i (List.mem_cons_of_mem _ hi)).extend hone.extends_) hbs
    refine ⟨hone.extends_.trans hext, fun hs => hcl (hone.closed hs), by simp [hlen], ?_, ?_⟩
    · intro i hi
      rcases List.mem_cons.1 hi with rfl | hi
      · exact hext.has hone.has
      · exact hhas i hi
    · intro p hp
      rcases List.mem_cons.1 hp with rfl | hp
      · exact hone.stands.extend hext
      · exact hst p hp

theorem buildFields_cons (c : Compiler) (name : String) {entry : Config}
    (h : entry.isValidation = false) (rest : List (String × Config)) (path : Path) (s : Store) :
    c.buildFields ((name, entry) :: rest) path s = (do
      let (id, s) ← c.build entry (Path.join path name) s
      let (ids, s) ← c.buildFields rest path s
      return ((name, id) :: ids, s)) := by
  cases entry with
  | validates path => simp [Config.isValidation] at h
  | _ => rw [buildFields]; simp

theorem buildFields_spec {fields : List (String × Config)}
    (hsound : ∀ field ∈ fields, Sound c field.2) {path : Path} {data : Fields NodeId}
    (hf : ∀ field ∈ fields, field.2.Fits s)
    (h : c.buildFields fields path s = .ok (data, s')) :
    s.Extends s' ∧ (s.Closed → s'.Closed) ∧ data.names = (dataFields fields).names ∧
      (∀ field ∈ data, s'.Has field.2) ∧
      ∀ p ∈ (dataFields fields).zip data, Stands c s' p.1.2 p.2.2 := by
  induction fields generalizing s data with
  | nil =>
    cases Except.ok.inj h
    exact ⟨.refl _, id, rfl, by simp, by simp [dataFields]⟩
  | cons field rest ih =>
    obtain ⟨name, entry⟩ := field
    have hsound' : ∀ field ∈ rest, Sound c field.2 := fun f hm =>
      hsound f (List.mem_cons_of_mem _ hm)
    have hf' : ∀ field ∈ rest, field.2.Fits s := fun f hm => hf f (List.mem_cons_of_mem _ hm)
    cases hv : entry.isValidation with
    | true =>
      obtain ⟨target, rfl⟩ := (isValidation_iff entry).1 hv
      rw [buildFields] at h
      exact ih hsound' hf' h
    | false =>
      rw [buildFields_cons c name hv] at h
      obtain ⟨⟨id, s₁⟩, hb, h⟩ := bind_eq_ok.1 h
      obtain ⟨⟨ids', s₂⟩, hbs, h⟩ := bind_eq_ok.1 h
      cases Except.ok.inj h
      have hone := hsound _ List.mem_cons_self (hf _ List.mem_cons_self) hb
      obtain ⟨hext, hcl, hnames, hhas, hst⟩ := ih hsound'
        (fun f hm => (hf' f hm).extend hone.extends_) hbs
      have hdata : dataFields ((name, entry) :: rest) = (name, entry) :: dataFields rest := by
        simp [dataFields, hv]
      rw [hdata]
      refine ⟨hone.extends_.trans hext, fun hs => hcl (hone.closed hs), ?_, ?_, ?_⟩
      · rw [Fields.names_cons, Fields.names_cons, hnames]
      · intro f hm
        rcases List.mem_cons.1 hm with rfl | hm
        · exact hext.has hone.has
        · exact hhas f hm
      · intro p hp
        rcases List.mem_cons.1 hp with rfl | hp
        · exact hone.stands.extend hext
        · exact hst p hp

/-- Each path is followed on its own, so the targets stand in the order of the validations. -/
theorem resolveAll_spec {data : Fields NodeId} {checks : List (String × Path)}
    {targets : List (String × Option NodeId)} (h : resolveAll s data checks = .ok targets) :
    targets.map (·.1) = checks.map (·.1) ∧
      ∀ p ∈ checks.zip targets, s.resolve data p.1.2 = .ok p.2.2 := by
  induction checks generalizing targets with
  | nil =>
    cases Except.ok.inj h
    simp
  | cons check rest ih =>
    unfold resolveAll at h
    rw [List.mapM_cons] at h
    obtain ⟨target, hr, h⟩ := bind_eq_ok.1 h
    obtain ⟨targets', hrs, h⟩ := bind_eq_ok.1 h
    cases Except.ok.inj h
    obtain ⟨hnames, hall⟩ := ih hrs
    cases e : s.resolve data check.2 with
    | error err => simp [e, Except.map] at hr
    | ok t =>
      rw [e] at hr
      cases Except.ok.inj hr
      refine ⟨by simp [hnames], fun p hp => ?_⟩
      rcases List.mem_cons.1 hp with rfl | hp
      · exact e
      · exact hall p hp

/-- The checks of a record are named neither like each other nor like its data fields. -/
theorem names_of_resolveAll {fields : List (String × Config)} {data : Fields NodeId}
    {targets : List (String × Option NodeId)} (hf : config.Fits s)
    (hl : c.layout config = .record fields) (hnames : data.names = (dataFields fields).names)
    (hr : resolveAll s data (validations fields) = .ok targets) :
    (targets.map (·.1)).Nodup ∧ ∀ check ∈ targets, check.1 ∉ data.names := by
  obtain ⟨hchecks, -⟩ := resolveAll_spec hr
  obtain ⟨hnodup, hfresh⟩ := validations_of_layout hf hl
  refine ⟨hchecks ▸ hnodup, fun check hm => ?_⟩
  have hm' : check.1 ∈ targets.map (·.1) := List.mem_map_of_mem hm
  rw [hchecks] at hm'
  obtain ⟨v, hv, he⟩ := List.mem_map.1 hm'
  rw [hnames, ← he]
  exact hfresh v hv

/-- The composite of a record stands for it once its validations have been added. -/
theorem record_built {fields : List (String × Config)} {data : Fields NodeId}
    {targets : List (String × Option NodeId)} (hf : config.Fits s)
    (hl : c.layout config = .record fields) (hnames : data.names = (dataFields fields).names)
    (hhas : ∀ field ∈ data, s.Has field.2)
    (hst : ∀ p ∈ (dataFields fields).zip data, Stands c s p.1.2 p.2.2)
    (hr : resolveAll s data (validations fields) = .ok targets) :
    Built c s (s.record data targets).2 config (s.record data targets).1 := by
  obtain ⟨hchecks, htargets⟩ := resolveAll_spec hr
  obtain ⟨hnodup, hnew⟩ := names_of_resolveAll hf hl hnames hr
  obtain ⟨hext, added, hadded, -, hn, hval⟩ := record_spec s data targets hnodup hnew
  have hadded' : added.names = (checkFields fields).names := by
    rw [hadded, hchecks, names_checkFields]
  have hlen : (dataFields fields).length = data.length := by
    have := congrArg List.length hnames
    simpa [Fields.names] using this.symm
  -- A pair of the arranged fields is a data field and its node, or a validation and its node.
  have hzip : ∀ p ∈ (arranged fields).zip (data ++ added),
      p ∈ (dataFields fields).zip data ∨ p ∈ (checkFields fields).zip added := fun p hp => by
    rwa [arranged, List.zip_append hlen, List.mem_append] at hp
  have hcheck : ∀ p ∈ (checkFields fields).zip added, ∃ path target,
      p.1.2 = .validates path ∧ s.resolve data path = .ok target ∧
        (s.record data targets).2.node? p.2.2 = some (.validation (target.getD s.next)) := by
    intro p hp
    obtain ⟨i, h₁, h₂⟩ := mem_zip_iff.1 hp
    rw [validations_eq, List.getElem?_map] at h₁
    obtain ⟨v, hv, he⟩ := Option.map_eq_some_iff.1 h₁
    have hi : i < targets.length := by
      have := congrArg List.length hadded
      have := (List.getElem?_eq_some_iff.1 h₂).1
      simp only [Fields.names, List.length_map] at *
      omega
    have ht := List.getElem?_eq_getElem hi
    exact ⟨v.2, targets[i].2, by rw [← he], htargets (v, targets[i]) (mem_zip_iff.2 ⟨i, hv, ht⟩),
      hval (targets[i], p.2) (mem_zip_iff.2 ⟨i, ht, h₂⟩)⟩
  refine ⟨hext, fun hs => hs.record hhas targets, has_of_node? hn, .record hl hn ?_ ?_ ?_⟩
  · rw [arranged, Fields.names_append, Fields.names_append, hnames, hadded']
  · intro p hp
    rcases hzip p hp with hp | hp
    · exact (hst p hp).extend hext
    · obtain ⟨path, target, he, -, hv⟩ := hcheck p hp
      exact .check (by rw [he, layout]) hv
  · intro p hp path he
    rcases hzip p hp with hp | hp
    · have hm := List.of_mem_filter (List.of_mem_zip hp).1
      simp [he, Config.isValidation] at hm
    · obtain ⟨path', target, he', hres, hv⟩ := hcheck p hp
      rw [he] at he'
      rw [← validates.inj he'] at hres
      exact ⟨_, hv, find_of_resolve hext hn hres⟩

/-- A successful build is as `Built` says, whatever the entry and the store. -/
theorem build_spec (c : Compiler) (config : Config) : Sound c config := by
  induction config using c.layout_induction with
  | step config ih =>
    intro path s s' id hf h
    rw [build_eq] at h
    have hfit : ∀ sub ∈ (c.layout config).parts, sub.Fits s := fun sub hm => fits_of_parts hf hm
    cases hl : c.layout config with
    | shared shared =>
      rw [hl] at h
      cases Except.ok.inj h
      exact ⟨.refl s, fun hs => hs, hf.has _ (node_of_layout c hl), .shared hl⟩
    | scalar d =>
      rw [hl] at h
      cases Except.ok.inj h
      have hn : (s.scalar d).2.node? (s.scalar d).1 = some (.scalar (.ofDeclaration d)) := by
        rw [Store.scalar, node?_alloc]
        exact if_pos rfl
      exact ⟨extends_alloc s _, fun hs => hs.alloc (by simp [Node.children]), has_of_node? hn,
        .scalar hl hn⟩
    | list items =>
      rw [hl] at h ih hfit
      obtain ⟨⟨ids, s₁⟩, hb, h⟩ := bind_eq_ok.1 h
      cases Except.ok.inj h
      obtain ⟨hext, hcl, hlen, hhas, hst⟩ := buildItems_spec ih hfit hb
      have hn : (s₁.list ids).2.node? (s₁.list ids).1 = some (.list ids) := by
        rw [Store.list, node?_alloc]
        exact if_pos rfl
      have hext' := extends_alloc s₁ (.list ids)
      exact ⟨hext.trans hext', fun hs => (hcl hs).alloc hhas, has_of_node? hn,
        .list hl hn hlen fun p hp => (hst p hp).extend hext'⟩
    | record fields =>
      rw [hl] at h ih hfit
      obtain ⟨⟨data, s₁⟩, hb, h⟩ := bind_eq_ok.1 h
      obtain ⟨targets, hr, h⟩ := bind_eq_ok.1 h
      cases Except.ok.inj h
      obtain ⟨hext, hcl, hnames, hhas, hst⟩ := buildFields_spec
        (fun f hm => ih f.2 (List.mem_map_of_mem hm))
        (fun f hm => hfit f.2 (List.mem_map_of_mem hm)) hb
      have hone := record_built (hf.extend hext) hl hnames hhas hst hr
      exact ⟨hext.trans hone.extends_, fun hs => hone.closed (hcl hs), hone.has, hone.stands⟩
    | incomplete => simp [hl, assemble] at h
    | detached path => simp [hl, assemble] at h

end StateTree.Compiler
