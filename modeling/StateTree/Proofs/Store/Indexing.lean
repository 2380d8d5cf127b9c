import StateTree.Proofs.Store.Acyclic
import StateTree.Proofs.Value.Position

/-
  Nodes by path and values by path. The snapshot of the node that a path leads to is the snapshot
  of the root, indexed by one segment after the other (`value?_find`). The one place where both
  could part is a validation, which a composite leaves out of its snapshot: it reads as null, and so
  does the name that is missing there.
-/

namespace StateTree

/-! ## Fields side by side with their values -/

section MapM

variable {α β : Type} {f : α → Option β}

/-- The fields whose values are worked out one by one. -/
theorem get?_mapM {fields : Fields α} {results : Fields β} (name : String)
    (h : (fields.mapM fun field => (f field.2).map (field.1, ·)) = some results) :
    results.get? name = (fields.get? name).bind f := by
  induction fields generalizing results with
  | nil =>
    cases Option.some.inj h
    rfl
  | cons field rest ih =>
    obtain ⟨first, a⟩ := field
    rw [List.mapM_cons] at h
    obtain ⟨entry, hentry, h⟩ := Option.bind_eq_some_iff.1 h
    obtain ⟨entries, hentries, h⟩ := Option.bind_eq_some_iff.1 h
    obtain ⟨b, hb, rfl⟩ := Option.map_eq_some_iff.1 hentry
    cases Option.some.inj h
    rw [Fields.get?_cons, Fields.get?_cons, ih hentries]
    split
    · exact hb.symm
    · rfl

theorem getElem?_mapM {items : List α} {results : List β} (h : items.mapM f = some results)
    (i : Nat) : results[i]? = items[i]?.bind f := by
  have hmap := congrArg (·[i]?) (mapM_eq_some_iff.1 h)
  simp only [List.getElem?_map] at hmap
  cases hi : items[i]? with
  | none => simpa [hi] using hmap
  | some a => cases hr : results[i]? <;> simp_all

end MapM

namespace Store

variable {s : Store} {root id child : NodeId} {segment : String} {v : Value}

/-- A field that carries data keeps its name in the snapshot. -/
theorem get?_dataOf {fields : Fields NodeId} (h : fields.get? segment = some child)
    (hv : s.isValidation child = false) : (s.dataOf fields).get? segment = some child := by
  induction fields with
  | nil => exact h
  | cons field rest ih =>
    obtain ⟨first, id⟩ := field
    rw [Fields.get?_cons] at h
    rw [dataOf_cons]
    split at h
    · next e =>
      cases Option.some.inj h
      rw [hv, if_neg Bool.false_ne_true, Fields.get?_cons, if_pos e]
    · next e =>
      split
      · exact ih h
      · rw [Fields.get?_cons, if_neg e]
        exact ih h

/-- The name of a validation is missing in the snapshot. -/
theorem get?_dataOf_of_isValidation {fields : Fields NodeId} (hd : fields.Distinct)
    (h : fields.get? segment = some child) (hv : s.isValidation child = true) :
    (s.dataOf fields).get? segment = none := by
  refine Option.eq_none_iff_forall_ne_some.2 fun id hid => ?_
  have hm := List.mem_filter.1 (Fields.mem_of_get? hid)
  cases Option.some.inj ((Fields.get?_of_mem hd hm.1).symm.trans h)
  simp [hv] at hm

/-- One segment further, in the store and in the snapshot alike. -/
theorem value?_child (hd : ∀ fields, s.fields? id = some fields → Fields.Distinct fields)
    (h : s.value? id = some v) (hc : s.child? id segment = some child) :
    s.value? child = some (v.part segment) := by
  unfold child? at hc
  split at hc
  · next fields hn =>
    rw [value?_composite hn] at h
    obtain ⟨ws, hws, rfl⟩ := Option.map_eq_some_iff.1 h
    show s.value? child = some ((Fields.get? ws segment).getD .null)
    rw [get?_mapM segment hws]
    cases hv : s.isValidation child with
    | true =>
      rw [get?_dataOf_of_isValidation (hd fields (by rw [fields?, hn])) hc hv]
      unfold isValidation at hv
      split at hv
      · next hn => exact value?_validation hn
      · simp at hv
    | false =>
      have hdata := get?_dataOf hc hv
      obtain ⟨entry, -, hentry⟩ := exists_of_mapM hws (Fields.mem_of_get? hdata)
      obtain ⟨w, hw, -⟩ := Option.map_eq_some_iff.1 hentry
      rw [hdata, Option.bind_some, hw]
      rfl
  · next items hn =>
    rw [value?_list hn] at h
    obtain ⟨ws, hws, rfl⟩ := Option.map_eq_some_iff.1 h
    obtain ⟨i, hi, hitem⟩ := Option.bind_eq_some_iff.1 hc
    obtain ⟨w, -, hw⟩ := exists_of_mapM hws (List.mem_of_getElem? hitem)
    have hresult : ws[i]? = some w := by rw [getElem?_mapM hws, hitem, Option.bind_some, hw]
    simp only [Value.part, hi, Option.map_some, Option.getD_some, Value.item, hresult, hw]
  · simp at hc

theorem value?_walk {path : Path} {segments : List String}
    (hd : ∀ id fields, s.fields? id = some fields → Fields.Distinct fields)
    (h : s.value? root = some v) (hw : s.walk path root segments = .ok id) :
    s.value? id = some (v.along segments) := by
  induction segments generalizing root v with
  | nil =>
    cases Except.ok.inj hw
    exact h
  | cons segment rest ih =>
    rw [walk] at hw
    cases hc : s.child? root segment with
    | none => simp [hc] at hw
    | some child =>
      simp only [hc] at hw
      exact ih (value?_child (hd root) h hc) hw

/-- Below a node without rings, every path leads to the part of its snapshot that the path leads
to, where the composites name each field once. -/
theorem value?_find (hs : s.Closed)
    (hd : ∀ id fields, s.fields? id = some fields → Fields.Distinct fields) (hroot : s.Has root)
    (ha : s.AcyclicBelow root) :
    ∃ v, s.value? root = some v ∧ ∀ path id, s.find root path = .ok id →
      s.value? id = some (v.along (Path.segments path)) := by
  have htree : (s.tree? root).isSome := (isSome_tree?_iff hs).2 ⟨hroot, ha.acc hs⟩
  obtain ⟨t, ht⟩ := Option.isSome_iff_exists.1 htree
  have hv : s.value? root = some t.value := by rw [value?, ht]; rfl
  exact ⟨t.value, hv, fun path id hfind => value?_walk hd hv hfind⟩

/-- A composite over a scalar, over a validation, and over a list of the two. -/
def tripleStore : Store :=
  ⟨#[some (.scalar (.ofDeclaration (.settled .bool (.bool true)))), some (.validation ⟨0⟩),
    some (.list [⟨0⟩, ⟨1⟩]), some (.composite [("on", ⟨0⟩), ("check", ⟨1⟩), ("rows", ⟨2⟩)])]⟩

theorem growth_tripleStore : Growth (fun _ => True) ∅ tripleStore := by
  have hleaves : Growth (fun _ => True) ∅
      ((scalar ∅ (.settled .bool (.bool true))).2.validation ⟨0⟩).2 :=
    .tail (.single (.scalar (.settled .bool (.bool true)))) (.validation ⟨0⟩)
  have hitems : ∀ item ∈ [(⟨0⟩ : NodeId), ⟨1⟩],
      Has ((scalar ∅ (.settled .bool (.bool true))).2.validation ⟨0⟩).2 item ∧ True := by
    simp only [List.forall_mem_cons, List.not_mem_nil, false_implies, implies_true, and_true]
    exact ⟨rfl, rfl⟩
  refine (hleaves.tail (.list hitems)).tail (.record ?_ [])
  simp only [List.forall_mem_cons, List.not_mem_nil, false_implies, implies_true, and_true]
  exact ⟨rfl, rfl, rfl⟩

theorem value?_find_triple :
    tripleStore.Closed ∧ tripleStore.AcyclicBelow ⟨3⟩ ∧
      tripleStore.find ⟨3⟩ "/rows//00" = .ok ⟨0⟩ ∧ tripleStore.find ⟨3⟩ "rows/1" = .ok ⟨1⟩ ∧
      tripleStore.find ⟨3⟩ "check" = .ok ⟨1⟩ ∧
      ∃ v, tripleStore.value? ⟨3⟩ = some v ∧
        tripleStore.value? ⟨0⟩ = some (v.along ["rows", "00"]) ∧
        tripleStore.value? ⟨1⟩ = some (v.along ["rows", "1"]) ∧
        tripleStore.value? ⟨1⟩ = some (v.along ["check"]) := by
  have hs : tripleStore.Closed := growth_tripleStore.closed closed_empty
  have ha : tripleStore.AcyclicBelow ⟨3⟩ := fun id _ =>
    growth_tripleStore.acyclic closed_empty acyclic_empty id
  have hd : ∀ id fields, tripleStore.fields? id = some fields → Fields.Distinct fields := by
    rintro ⟨i⟩ fields h
    match i with
    | 3 =>
      cases h
      unfold Fields.Distinct
      decide
    | 0 | 1 | 2 => cases h
    | i + 4 => cases h
  have hroot : tripleStore.Has ⟨3⟩ := rfl
  have hrow : tripleStore.find ⟨3⟩ "/rows//00" = .ok ⟨0⟩ := rfl
  have hitem : tripleStore.find ⟨3⟩ "rows/1" = .ok ⟨1⟩ := rfl
  have hcheck : tripleStore.find ⟨3⟩ "check" = .ok ⟨1⟩ := rfl
  obtain ⟨v, hv, h⟩ := value?_find hs hd hroot ha
  exact ⟨hs, ha, hrow, hitem, hcheck, v, hv, h _ _ hrow, h _ _ hitem, h _ _ hcheck⟩

end Store

end StateTree
