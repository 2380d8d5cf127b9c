import StateTree.Proofs.Compile.Literal
import StateTree.Proofs.Path

/-
  Faulty configurations. `defects` reads off an entry all that keeps it from being compiled, in the
  order in which the compiler comes upon it: depth first as declared, but in each record the data
  fields before the validations. Main statement: an entry is compiled if it has no defects, and
  otherwise the first of them is reported (`compile_defects`).
-/

namespace StateTree

/-- What keeps an entry from being compiled. -/
inductive Defect
  /-- A required type without a default, at the end of these steps from the top. -/
  | missingDefault (steps : List String)
  | detachedValidation (path : Path)
  /-- The path of a validation leads to no node from this segment on. -/
  | unresolvedPath (path : Path) (segment : String)

def Defect.error : Defect → Error
  | .missingDefault steps => .missingDefault (Path.ofSteps steps)
  | .detachedValidation path => .detachedValidation path
  | .unresolvedPath path segment => .unresolvedPath path segment

/-- How a defect is to be reported: with the steps joined by slashes. -/
def Defect.report : Defect → Error
  | .missingDefault [] => .missingDefault "/"
  | .missingDefault steps => .missingDefault ("/".intercalate steps)
  | .detachedValidation path => .detachedValidation path
  | .unresolvedPath path segment => .unresolvedPath path segment

/-- The result is there if there are no defects. Otherwise the first defect is reported. -/
def Reports {α : Type} (result : Except Error α) : List Defect → Prop
  | [] => ∃ a, result = .ok a
  | defect :: _ => result = .error defect.error

theorem reports_ok {α : Type} (a : α) : Reports (.ok a) [] := ⟨a, rfl⟩

theorem Reports.eq_nil {α : Type} {a : α} {defects : List Defect}
    (h : Reports (.ok a) defects) : defects = [] := by
  cases defects with
  | nil => rfl
  | cons defect rest =>
    have he : Except.ok a = .error defect.error := h
    simp at he

/-- Of two steps the second one reports its defects only if the first one has none. -/
theorem Reports.bind {α β : Type} {result : Except Error α} {next : α → Except Error β}
    {front back : List Defect} (h : Reports result front)
    (h' : ∀ a, result = .ok a → Reports (next a) back) :
    Reports (result >>= next) (front ++ back) := by
  cases front with
  | nil =>
    obtain ⟨a, rfl⟩ := h
    exact h' a rfl
  | cons defect rest =>
    have he : result = .error defect.error := h
    rw [he]
    rfl

theorem Reports.map {α β : Type} {result : Except Error α} {defects : List Defect}
    (h : Reports result defects) (f : α → β) : Reports (result.map f) defects := by
  cases defects with
  | nil =>
    obtain ⟨a, rfl⟩ := h
    exact reports_ok (f a)
  | cons defect rest =>
    have he : result = .error defect.error := h
    rw [he]
    rfl

namespace Config

/-- The name of every field of a record is one segment of a path. -/
def Named (config : Config) : Prop :=
  ∀ fields, .record fields ∈ config.entries → ∀ field ∈ fields, Path.IsSegment field.1

theorem Named.of_subset {config sub : Config} (h : config.Named)
    (hs : sub.entries ⊆ config.entries) : sub.Named := fun fields hm => h fields (hs hm)

end Config

namespace Compiler

open Config Store

variable {c : Compiler} {s s' : Store} {config : Config} {id : NodeId}

/-! ## Defects -/

/-- The first segment at which there is no node, on the way down from an entry. -/
def firstMissing (c : Compiler) (s : Store) : Config → List String → Option String
  | _, [] => none
  | config, segment :: rest =>
    match c.below? s config segment with
    | none => some segment
    | some sub => firstMissing c s sub rest

/-- Whether the path of a validation leads nowhere from the data fields of its record. -/
def unresolved? (c : Compiler) (s : Store) (fields : List (String × Config)) (path : Path) :
    Option Defect :=
  match Path.segments path with
  | [] => none
  | segment :: rest =>
    match (dataFields fields).get? segment with
    | none => some (.unresolvedPath path segment)
    | some entry => (c.firstMissing s entry rest).map (.unresolvedPath path)

/-- The defects of the validations of a record. -/
def checkDefects (c : Compiler) (s : Store) (fields : List (String × Config)) : List Defect :=
  (validations fields).filterMap fun check => c.unresolved? s fields check.2

mutual

/-- The defects of an entry at the end of these steps. -/
def defects (c : Compiler) (s : Store) : Config → List String → List Defect
  | .node _, _ => []
  | .pending _, steps => [.missingDefault steps]
  | .scalar d, steps => if d.isUsable then [] else [.missingDefault steps]
  | .shape inner _, steps => defects c s inner steps
  | .validates path, _ => [.detachedValidation path]
  | .sequence items, steps => itemDefects c s items steps 0
  | .record fields, steps => fieldDefects c s fields steps ++ c.checkDefects s fields
  | .literal _, _ => []

def itemDefects (c : Compiler) (s : Store) : List Config → List String → Nat → List Defect
  | [], _, _ => []
  | item :: rest, steps, index =>
    defects c s item (steps ++ [toString index]) ++ itemDefects c s rest steps (index + 1)

def fieldDefects (c : Compiler) (s : Store) :
    List (String × Config) → List String → List Defect
  | [], _ => []
  | (_, .validates _) :: rest, steps => fieldDefects c s rest steps
  | (name, child) :: rest, steps =>
    defects c s child (steps ++ [name]) ++ fieldDefects c s rest steps

end

theorem fieldDefects_cons (c : Compiler) (s : Store) (name : String) {entry : Config}
    (h : entry.isValidation = false) (rest : List (String × Config)) (steps : List String) :
    c.fieldDefects s ((name, entry) :: rest) steps =
      c.defects s entry (steps ++ [name]) ++ c.fieldDefects s rest steps := by
  cases entry with
  | validates path => simp [Config.isValidation] at h
  | _ => rw [fieldDefects]; simp

mutual

/-- What spells a literal has no defects. -/
theorem defects_of_toLiteral? (c : Compiler) (s : Store) : ∀ {config : Config} {v : Value},
    config.toLiteral? = some v → ∀ steps, c.defects s config steps = []
  | .literal _, _, _, _ => by rw [defects]
  | .sequence items, _, h, steps => by
    rw [toLiteral?] at h
    obtain ⟨vs, hvs, -⟩ := Option.map_eq_some_iff.1 h
    rw [defects]
    exact itemDefects_of_literalItems? c s hvs steps 0
  | .record fields, _, h, steps => by
    rw [toLiteral?] at h
    obtain ⟨vs, hvs, -⟩ := Option.map_eq_some_iff.1 h
    rw [defects, fieldDefects_of_literalFields? c s hvs steps, checkDefects,
      validations_of_literalFields? hvs]
    rfl
  | .node _, _, h, _ => by simp [toLiteral?] at h
  | .pending _, _, h, _ => by simp [toLiteral?] at h
  | .scalar _, _, h, _ => by simp [toLiteral?] at h
  | .shape _ _, _, h, _ => by simp [toLiteral?] at h
  | .validates _, _, h, _ => by simp [toLiteral?] at h

theorem itemDefects_of_literalItems? (c : Compiler) (s : Store) :
    ∀ {items : List Config} {vs : List Value}, literalItems? items = some vs →
      ∀ steps index, c.itemDefects s items steps index = []
  | [], _, _, _, _ => by rw [itemDefects]
  | item :: rest, _, h, steps, index => by
    rw [literalItems?] at h
    split at h
    · next hone hrest =>
      rw [itemDefects, defects_of_toLiteral? c s hone, itemDefects_of_literalItems? c s hrest]
      rfl
    · simp at h

theorem fieldDefects_of_literalFields? (c : Compiler) (s : Store) :
    ∀ {fields : List (String × Config)} {vs : List (String × Value)},
      literalFields? fields = some vs → ∀ steps, c.fieldDefects s fields steps = []
  | [], _, _, _ => by rw [fieldDefects]
  | (name, entry) :: rest, _, h, steps => by
    rw [literalFields?] at h
    split at h
    · next hone hrest =>
      have hv : entry.isValidation = false := by
        cases entry <;> simp_all [toLiteral?, Config.isValidation]
      rw [fieldDefects_cons c s name hv, defects_of_toLiteral? c s hone,
        fieldDefects_of_literalFields? c s hrest]
      rfl
    · simp at h

end

/-- The defects of an entry of known layout. -/
def layoutDefects (c : Compiler) (s : Store) (steps : List String) : Layout → List Defect
  | .list items => c.itemDefects s items steps 0
  | .record fields => c.fieldDefects s fields steps ++ c.checkDefects s fields
  | .incomplete => [.missingDefault steps]
  | .detached path => [.detachedValidation path]
  | .shared _ => []
  | .scalar _ => []

theorem layoutDefects_opened (c : Compiler) (s : Store) (v : Value) (steps : List String) :
    c.layoutDefects s steps (opened v) = [] := by
  have hrecord : ∀ vs : List (String × Value), c.layoutDefects s steps
      (.record (vs.map fun v => (v.1, .literal v.2))) = [] := fun vs => by
    rw [layoutDefects, fieldDefects_of_literalFields? c s (literalFields?_literal vs),
      checkDefects, validations_literal]
    rfl
  cases v with
  | array vs => exact itemDefects_of_literalItems? c s (literalItems?_literal vs) steps 0
  | object vs => exact hrecord vs
  | instanceOf className vs => exact hrecord vs
  | _ => rfl

/-- What is settled as one scalar hides no defects. -/
theorem defects_eq (c : Compiler) (s : Store) : ∀ (config : Config) (steps : List String),
    c.defects s config steps = c.layoutDefects s steps (c.layout config)
  | .node _, _ => by rw [defects, layout, layoutDefects]
  | .pending _, _ => by rw [defects, layout, layoutDefects]
  | .scalar d, _ => by
    rw [defects, layout]
    split <;> rfl
  | .shape inner _, steps => by
    rw [defects, layout]
    exact defects_eq c s inner steps
  | .validates _, _ => by rw [defects, layout, layoutDefects]
  | .sequence items, steps => by
    cases hd : c.scalarOf? (.sequence items) with
    | some d =>
      obtain ⟨v, hv⟩ := toLiteral?_of_scalarOf? hd
      rw [defects_of_toLiteral? c s hv, layout, hd]
      rfl
    | none =>
      rw [defects, layout, hd]
      rfl
  | .record fields, steps => by
    cases hd : c.scalarOf? (.record fields) with
    | some d =>
      obtain ⟨v, hv⟩ := toLiteral?_of_scalarOf? hd
      rw [defects_of_toLiteral? c s hv, layout, hd]
      rfl
    | none =>
      rw [defects, layout, hd]
      rfl
  | .literal v, steps => by
    rw [defects, layout]
    cases c.scalarOfValue? v with
    | some d => rfl
    | none => exact (layoutDefects_opened c s v steps).symm

/-! ## Paths that lead nowhere -/

theorem walk_reports {path : Path} {segments : List String} (h : Stands c s' config id)
    (hs : s.Closed) (he : s.Extends s') (hf : config.Fits s) :
    Reports (s'.walk path id segments)
      ((c.firstMissing s config segments).map (Defect.unresolvedPath path)).toList := by
  induction segments generalizing config id with
  | nil =>
    rw [walk, firstMissing]
    exact reports_ok id
  | cons segment rest ih =>
    rw [walk, firstMissing]
    rcases h.child hs he hf segment with ⟨sub, child, hb, hc, hfit, hsub⟩ | ⟨hb, hc⟩
    · rw [hb, hc]
      exact ih hsub hfit
    · rw [hb, hc]
      rfl

/-- A path is followed among the data fields of a record. -/
theorem resolve_reports {fields : List (String × Config)} {data : Fields NodeId}
    (hs : s.Closed) (he : s.Extends s') (hf : ∀ field ∈ fields, field.2.Fits s)
    (hnames : data.names = (dataFields fields).names)
    (hst : ∀ p ∈ (dataFields fields).zip data, Stands c s' p.1.2 p.2.2) (path : Path) :
    Reports (s'.resolve data path) (c.unresolved? s fields path).toList := by
  unfold resolve unresolved?
  cases Path.segments path with
  | nil => exact reports_ok none
  | cons segment rest =>
    rcases Fields.get?_zip hnames.symm segment with ⟨entry, child, hx, hy, hp⟩ | ⟨hx, hy⟩
    · have hm : (segment, entry) ∈ fields := List.mem_of_mem_filter (Fields.mem_of_get? hx)
      simp only [hx, hy]
      exact (walk_reports (hst _ hp) hs he (hf _ hm)).map some
    · simp only [hx, hy]
      rfl

theorem resolveAll_reports {data : Fields NodeId} {checks : List (String × Path)}
    {f : String × Path → Option Defect}
    (h : ∀ check ∈ checks, Reports (s.resolve data check.2) (f check).toList) :
    Reports (resolveAll s data checks) (checks.filterMap f) := by
  unfold resolveAll
  induction checks with
  | nil => exact reports_ok []
  | cons check rest ih =>
    have hcons : (check :: rest).filterMap f = (f check).toList ++ rest.filterMap f := by
      rw [List.filterMap_cons]
      cases f check <;> rfl
    rw [List.mapM_cons, hcons]
    refine ((h check List.mem_cons_self).map _).bind fun target _ => ?_
    have hrest := ih fun check hm => h check (List.mem_cons_of_mem _ hm)
    exact hrest.map (target :: ·)

/-! ## The first defect is reported -/

/-- Wherever the entry is built, by then in a store `s'`, its defects are those that it has in the
store `s` at the start. -/
def Reported (c : Compiler) (config : Config) : Prop :=
  ∀ ⦃s s' : Store⦄, s.Closed → s.Extends s' → config.Fits s → ∀ steps,
    Reports (c.build config (Path.ofSteps steps) s') (c.defects s config steps)

theorem buildItems_reports {items : List Config} (h : ∀ item ∈ items, Reported c item)
    (hs : s.Closed) (he : s.Extends s') (hf : ∀ item ∈ items, item.Fits s) (steps : List String)
    (index : Nat) :
    Reports (c.buildItems items (Path.ofSteps steps) index s')
      (c.itemDefects s items steps index) := by
  induction items generalizing s' index with
  | nil =>
    rw [buildItems, itemDefects]
    exact reports_ok _
  | cons item rest ih =>
    rw [buildItems, itemDefects, Path.join_ofSteps]
    have hfit := hf item List.mem_cons_self
    refine (h item List.mem_cons_self hs he hfit _).bind fun built hb => ?_
    have hone := c.build_spec item (hfit.extend he) hb
    have hrest := ih (fun i hi => h i (List.mem_cons_of_mem _ hi)) (he.trans hone.extends_)
      (fun i hi => hf i (List.mem_cons_of_mem _ hi)) (index + 1)
    exact hrest.map fun more => (built.1 :: more.1, more.2)

theorem buildFields_reports {fields : List (String × Config)}
    (h : ∀ field ∈ fields, Reported c field.2) (hs : s.Closed) (he : s.Extends s')
    (hf : ∀ field ∈ fields, field.2.Fits s) (steps : List String) :
    Reports (c.buildFields fields (Path.ofSteps steps) s') (c.fieldDefects s fields steps) := by
  induction fields generalizing s' with
  | nil =>
    rw [buildFields, fieldDefects]
    exact reports_ok _
  | cons field rest ih =>
    obtain ⟨name, entry⟩ := field
    have h' : ∀ field ∈ rest, Reported c field.2 := fun f hm => h f (List.mem_cons_of_mem _ hm)
    have hf' : ∀ field ∈ rest, field.2.Fits s := fun f hm => hf f (List.mem_cons_of_mem _ hm)
    cases hv : entry.isValidation with
    | true =>
      obtain ⟨target, rfl⟩ := (isValidation_iff entry).1 hv
      rw [buildFields, fieldDefects]
      exact ih h' he hf'
    | false =>
      rw [buildFields_cons c name hv, fieldDefects_cons c s name hv, Path.join_ofSteps]
      have hfit := hf _ List.mem_cons_self
      refine (h _ List.mem_cons_self hs he hfit _).bind fun built hb => ?_
      have hone := c.build_spec entry (hfit.extend he) hb
      have hrest := ih h' (he.trans hone.extends_) hf'
      exact hrest.map fun more => ((name, built.1) :: more.1, more.2)

/-- The validations of a record are looked at once all its data fields have been built. -/
theorem record_reports {fields : List (String × Config)}
    (h : ∀ field ∈ fields, Reported c field.2) (hs : s.Closed) (he : s.Extends s')
    (hf : ∀ field ∈ fields, field.2.Fits s) (steps : List String) :
    Reports (c.assemble (Path.ofSteps steps) s' (.record fields))
      (c.fieldDefects s fields steps ++ c.checkDefects s fields) := by
  rw [assemble]
  refine (buildFields_reports h hs he hf steps).bind fun built hb => ?_
  obtain ⟨hext, -, hnames, -, hst⟩ := buildFields_spec (fun field _ => c.build_spec field.2)
    (fun field hm => (hf field hm).extend he) hb
  have hchecks : Reports (resolveAll built.2 built.1 (validations fields))
      (c.checkDefects s fields) :=
    resolveAll_reports fun check _ =>
      resolve_reports hs (he.trans hext) hf hnames hst check.2
  exact hchecks.map fun targets => built.2.record built.1 targets

theorem build_reports (c : Compiler) (config : Config) : Reported c config := by
  induction config using c.layout_induction with
  | step config ih =>
    intro s s' hs he hf steps
    have hfit : ∀ sub ∈ (c.layout config).parts, sub.Fits s := fun sub hm => fits_of_parts hf hm
    -- Building and defects both follow the layout, so each case is one step on either side.
    rw [build_eq, defects_eq]
    cases hl : c.layout config with
    | shared id => exact reports_ok _
    | scalar d => exact reports_ok _
    | list items =>
      rw [hl] at ih hfit
      exact (buildItems_reports ih hs he hfit steps 0).map fun built => built.2.list built.1
    | record fields =>
      rw [hl] at ih hfit
      exact record_reports (fun f hm => ih f.2 (List.mem_map_of_mem hm)) hs he
        (fun f hm => hfit f.2 (List.mem_map_of_mem hm)) steps
    | incomplete => rfl
    | detached path => rfl

theorem compile_reports (c : Compiler) (hs : s.Closed) (hf : config.Fits s) :
    Reports (c.compile config s) (c.defects s config []) :=
  c.build_reports config hs (.refl s) hf []

/-! ## Reported paths -/

theorem report_of_checkDefects {fields : List (String × Config)} {defect : Defect}
    (h : defect ∈ c.checkDefects s fields) : defect.error = defect.report := by
  obtain ⟨check, -, hc⟩ := List.mem_filterMap.1 h
  unfold unresolved? at hc
  split at hc
  · simp at hc
  · split at hc
    · rw [← Option.some.inj hc]
      rfl
    · obtain ⟨segment, -, rfl⟩ := Option.map_eq_some_iff.1 hc
      rfl

theorem report_missingDefault {steps : List String} (h : ∀ step ∈ steps, Path.IsSegment step) :
    (Defect.missingDefault steps).error = (Defect.missingDefault steps).report := by
  cases steps with
  | nil => rfl
  | cons step rest => exact congrArg Error.missingDefault (Path.ofSteps_eq h (List.cons_ne_nil _ _))

theorem isSegment_append {steps : List String} (h : ∀ step ∈ steps, Path.IsSegment step)
    {last : String} (hlast : Path.IsSegment last) :
    ∀ step ∈ steps ++ [last], Path.IsSegment step := fun step hm => by
  rcases List.mem_append.1 hm with hm | hm
  · exact h step hm
  · rwa [List.mem_singleton.1 hm]

mutual

theorem report_of_defects (c : Compiler) (s : Store) : ∀ {config : Config}, config.Named →
    ∀ {steps : List String}, (∀ step ∈ steps, Path.IsSegment step) →
      ∀ defect ∈ c.defects s config steps, defect.error = defect.report
  | .node _, _, _, _, defect, hm => by simp [defects] at hm
  | .pending _, _, steps, h, defect, hm => by
    rw [defects, List.mem_singleton] at hm
    rw [hm]
    exact report_missingDefault h
  | .scalar d, _, steps, h, defect, hm => by
    rw [defects] at hm
    split at hm
    · simp at hm
    · rw [List.mem_singleton.1 hm]
      exact report_missingDefault h
  | .shape inner _, hn, steps, h, defect, hm => by
    rw [defects] at hm
    exact report_of_defects c s (hn.of_subset (entries_inner _ _)) h defect hm
  | .validates _, _, _, _, defect, hm => by
    rw [defects, List.mem_singleton] at hm
    rw [hm]
    rfl
  | .sequence items, hn, steps, h, defect, hm => by
    rw [defects] at hm
    exact report_of_itemDefects c s (fun item hi => hn.of_subset (entries_item hi)) h 0 defect hm
  | .record fields, hn, steps, h, defect, hm => by
    rw [defects] at hm
    rcases List.mem_append.1 hm with hm | hm
    · have hfields : ∀ field ∈ fields, Path.IsSegment field.1 ∧ field.2.Named := fun field hf =>
        ⟨hn fields (record_mem_entries fields) field hf, hn.of_subset (entries_field hf)⟩
      exact report_of_fieldDefects c s hfields h defect hm
    · exact report_of_checkDefects hm
  | .literal _, _, _, _, defect, hm => by simp [defects] at hm

theorem report_of_itemDefects (c : Compiler) (s : Store) : ∀ {items : List Config},
    (∀ item ∈ items, item.Named) → ∀ {steps : List String},
      (∀ step ∈ steps, Path.IsSegment step) → ∀ index,
        ∀ defect ∈ c.itemDefects s items steps index, defect.error = defect.report
  | [], _, _, _, _, defect, hm => by simp [itemDefects] at hm
  | item :: rest, hn, steps, h, index, defect, hm => by
    rw [itemDefects] at hm
    rcases List.mem_append.1 hm with hm | hm
    · exact report_of_defects c s (hn item List.mem_cons_self)
        (isSegment_append h (Path.isSegment_toString index)) defect hm
    · exact report_of_itemDefects c s (fun i hi => hn i (List.mem_cons_of_mem _ hi)) h _ defect hm

theorem report_of_fieldDefects (c : Compiler) (s : Store) : ∀ {fields : List (String × Config)},
    (∀ field ∈ fields, Path.IsSegment field.1 ∧ field.2.Named) → ∀ {steps : List String},
      (∀ step ∈ steps, Path.IsSegment step) →
        ∀ defect ∈ c.fieldDefects s fields steps, defect.error = defect.report
  | [], _, _, _, defect, hm => by simp [fieldDefects] at hm
  | (name, entry) :: rest, hn, steps, h, defect, hm => by
    have hrest : ∀ defect ∈ c.fieldDefects s rest steps, defect.error = defect.report :=
      report_of_fieldDefects c s (fun f hf => hn f (List.mem_cons_of_mem _ hf)) h
    cases hv : entry.isValidation with
    | true =>
      obtain ⟨target, rfl⟩ := (isValidation_iff entry).1 hv
      rw [fieldDefects] at hm
      exact hrest defect hm
    | false =>
      rw [fieldDefects_cons c s name hv] at hm
      obtain ⟨hname, hentry⟩ := hn _ List.mem_cons_self
      rcases List.mem_append.1 hm with hm | hm
      · exact report_of_defects c s hentry (isSegment_append h hname) defect hm
      · exact hrest defect hm

end

/-- A configuration whose fields have plain names is compiled unless it has a defect, and then the
first defect is reported, with the path of its entry if a default is missing. -/
theorem compile_defects (c : Compiler) {config : Config} {s : Store} (hs : s.Closed)
    (hf : config.Fits s) (hn : config.Named) :
    ((∃ e, c.compile config s = .error e) ↔ c.defects s config [] ≠ []) ∧
      ∀ defect ∈ (c.defects s config []).head?, c.compile config s = .error defect.report := by
  have hreports := c.compile_reports hs hf
  have hpaths : ∀ defect ∈ c.defects s config [], defect.error = defect.report :=
    report_of_defects c s hn (by simp)
  cases hd : c.defects s config [] with
  | nil =>
    rw [hd] at hreports
    obtain ⟨built, hb⟩ := hreports
    simp [hb]
  | cons defect rest =>
    rw [hd] at hreports hpaths
    have hb : c.compile config s = .error defect.error := hreports
    rw [hpaths defect List.mem_cons_self] at hb
    simp [hb]

/-- A validation that leads nowhere, and after it a required type without a default. -/
def pendingConfig : Config :=
  .record [("check", .validates "rows/2"),
    ("rows", .sequence [.literal .null, .pending (.ofSchema (Schema.primitive .bool).asRequired)])]

theorem compile_defects_pending :
    pendingConfig.Named ∧
      standard.compile pendingConfig ∅ = .error (.missingDefault "rows/1") := by
  have hf : pendingConfig.Fits ∅ := by decide
  have hn : pendingConfig.Named := by
    intro fields hm
    simp only [pendingConfig, entries, fieldEntries, itemEntries, List.append_nil,
      List.cons_append, List.nil_append, List.mem_cons, List.not_mem_nil, record.injEq,
      reduceCtorEq, or_false] at hm
    subst hm
    simp [Path.IsSegment]
  exact ⟨hn, (compile_defects standard closed_empty hf hn).2 (.missingDefault ["rows", "1"]) rfl⟩

end Compiler

end StateTree
