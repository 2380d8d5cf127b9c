import StateTree.Proofs.Schema.Inherited

/-
  Unions. A sequence and a union of the same entries are resolved alike: both keep each type where
  it stands first (`distinct_firstOccurrences`), and both fail for the same entry. They differ only
  where there is nothing to choose from: a sequence whose items all agree is an array of the one
  type, and one without items takes any (`sequence_unifies`).
-/

namespace StateTree

namespace Schema

variable {types : List Schema} {t : Schema}

/-! ## Leaving out repetitions -/

/-- Of all types, those are kept that stand at the given places, from left to right. Each of the
others repeats one that is kept from an earlier place. -/
structure KeptAt (types kept : List Schema) (places : List Nat) : Prop where
  sorted : places.Pairwise (· < ·)
  types_at : places.map (types[·]?) = kept.map some
  repeats : ∀ i t, types[i]? = some t → i ∉ places →
    ∃ j ∈ places, j < i ∧ ∃ u, types[j]? = some u ∧ u.same t = true

section KeptAt

variable {kept : List Schema} {places : List Nat} {i : Nat}

theorem KeptAt.lt_length (h : KeptAt types kept places) (hi : i ∈ places) : i < types.length := by
  have hm : types[i]? ∈ kept.map some := h.types_at ▸ List.mem_map_of_mem hi
  obtain ⟨t, -, ht⟩ := List.mem_map.1 hm
  exact (List.getElem?_eq_some_iff.1 ht.symm).1

theorem KeptAt.getElem?_append (h : KeptAt types kept places) (t : Schema) (hi : i ∈ places) :
    (types ++ [t])[i]? = types[i]? :=
  List.getElem?_append_left (h.lt_length hi)

theorem KeptAt.map_append (h : KeptAt types kept places) (t : Schema) :
    places.map ((types ++ [t])[·]?) = kept.map some := by
  rw [← h.types_at]
  exact List.map_congr_left fun i hi => h.getElem?_append t hi

theorem KeptAt.repeats_append (h : KeptAt types kept places) (t : Schema) {v : Schema}
    (hlt : i < types.length) (hv : (types ++ [t])[i]? = some v) (hi : i ∉ places) :
    ∃ j ∈ places, j < i ∧ ∃ u, (types ++ [t])[j]? = some u ∧ u.same v = true := by
  rw [List.getElem?_append_left hlt] at hv
  obtain ⟨j, hj, hji, u, hu, hsame⟩ := h.repeats i v hv hi
  exact ⟨j, hj, hji, u, (h.getElem?_append t hj).trans hu, hsame⟩

/-- A further type that equals one of those kept is left out. -/
theorem KeptAt.again {u : Schema} (h : KeptAt types kept places) (hu : u ∈ kept)
    (hsame : u.same t = true) : KeptAt (types ++ [t]) kept places where
  sorted := h.sorted
  types_at := h.map_append t
  repeats := fun i v hv hi => by
    by_cases hlt : i < types.length
    · exact h.repeats_append t hlt hv hi
    · have hlast : i = types.length := by
        have hle := (List.getElem?_eq_some_iff.1 hv).1
        rw [List.length_append, List.length_singleton] at hle
        omega
      rw [hlast, List.getElem?_concat_length] at hv
      cases Option.some.inj hv
      have hm : some u ∈ places.map (types[·]?) := h.types_at ▸ List.mem_map_of_mem hu
      obtain ⟨j, hj, hju⟩ := List.mem_map.1 hm
      exact ⟨j, hj, hlast ▸ h.lt_length hj, u, (h.getElem?_append t hj).trans hju, hsame⟩

/-- A further type may be kept behind all others. -/
theorem KeptAt.new (h : KeptAt types kept places) (t : Schema) :
    KeptAt (types ++ [t]) (kept ++ [t]) (places ++ [types.length]) where
  sorted := List.pairwise_append.2 ⟨h.sorted, List.pairwise_singleton _ _, fun i hi j hj =>
    List.mem_singleton.1 hj ▸ h.lt_length hi⟩
  types_at := by
    rw [List.map_append, List.map_append, h.map_append t, List.map_singleton, List.map_singleton,
      List.getElem?_concat_length]
  repeats := fun i v hv hi => by
    rw [List.mem_append, List.mem_singleton, not_or] at hi
    have hlt : i < types.length := by
      have hle := (List.getElem?_eq_some_iff.1 hv).1
      rw [List.length_append, List.length_singleton] at hle
      omega
    obtain ⟨j, hj, hji⟩ := h.repeats_append t hlt hv hi.1
    exact ⟨j, List.mem_append_left _ hj, hji⟩

end KeptAt

theorem exists_keptAt (types : List Schema) : ∃ places, KeptAt types (distinct types) places := by
  induction types using List.reverseRecOn with
  | nil => exact ⟨[], .nil, rfl, fun i t h => by simp at h⟩
  | append_singleton types t ih =>
    obtain ⟨places, h⟩ := ih
    rw [distinct_append]
    split
    · next hold =>
      obtain ⟨u, hu, hsame⟩ := List.any_eq_true.1 hold
      exact ⟨places, h.again hu hsame⟩
    · exact ⟨_, h.new t⟩

/-- The types without later repetitions: those that are kept are in their order, any two of them
differ, and each type equals one of them, whichever is compared with the other. -/
structure FirstOccurrences (types kept : List Schema) : Prop where
  places : ∃ places, KeptAt types kept places
  differ : kept.Pairwise fun t u => t.same u = false ∧ u.same t = false
  covered : ∀ t ∈ types, ∃ u ∈ kept, u.same t = true ∧ t.same u = true

theorem distinct_firstOccurrences (h : ∀ t ∈ types, t.All NamesDistinct) :
    FirstOccurrences types (distinct types) where
  places := exists_keptAt types
  differ := pairwise_distinct h
  covered := fun _ hm => exists_same_distinct h hm

end Schema

namespace Inference

open Schema

variable {inference : Inference} {xs : List Config} {e : Error} {types : List Schema}

/-! ## Sequences and unions of the same entries -/

theorem typeOf_sequence (h : inference.typesOf xs = .ok types) :
    inference.typeOf (.sequence xs) = sequenceType types := by
  rw [typeOf, h]
  rfl

theorem typeOf_sequence_error (h : inference.typesOf xs = .error e) :
    inference.typeOf (.sequence xs) = .error e := by
  rw [typeOf, h]
  rfl

theorem oneOf_error (h : inference.typesOf xs = .error e) : inference.oneOf xs = .error e := by
  rw [oneOf, h]
  rfl

theorem oneOf_eq_ok (h : inference.typesOf xs = .ok types) (hne : types ≠ []) :
    inference.oneOf xs = .ok (.ofSchema (.ofKind (.oneOf (distinct types)))) := by
  rw [oneOf, h]
  show (oneOf? types).bind _ = _
  rw [oneOf?_eq_ok hne]
  rfl

theorem typeOf_singleton (inference : Inference) (x : Config) :
    inference.typeOf (.sequence [x]) = (inference.arrayOf x).map (·.schema.asRequired) := by
  cases h : inference.typeOf x with
  | error e =>
    have htypes : inference.typesOf [x] = .error e := by
      rw [typesOf, h]
      rfl
    rw [typeOf_sequence_error htypes, arrayOf, h]
    rfl
  | ok t =>
    have htypes : inference.typesOf [x] = .ok [t] := typesOf_eq_ok.2 (.cons h .nil)
    rw [typeOf_sequence htypes, arrayOf, h]
    rfl

/-- A sequence and a union of the same entries fail for the first entry without a type, and for the
same reason. If all have types, the union is of the first occurrences of these. The sequence is an
array of that union, or of the one type if there is only one; without items it takes any, and there
is no union of nothing. A sequence of one item is the required form of an array of the item. -/
theorem sequence_unifies (inference : Inference) :
    (∀ front x back e, (∀ y ∈ front, ∃ t, inference.typeOf y = .ok t) →
      inference.typeOf x = .error e →
        inference.typeOf (.sequence (front ++ x :: back)) = .error e ∧
        inference.oneOf (front ++ x :: back) = .error e) ∧
    (∀ xs types, xs ≠ [] → (∀ x ∈ xs, x.DeclaresOnly Schema.NamesDistinct) →
      List.Forall₂ (fun x t => inference.typeOf x = .ok t) xs types →
        FirstOccurrences types (distinct types) ∧
        inference.oneOf xs = .ok (.ofSchema (.ofKind (.oneOf (distinct types)))) ∧
        oneOf? (distinct types) = .ok (.ofKind (.oneOf (distinct types))) ∧
        ∃ t, inference.typeOf (.sequence xs) = .ok (Schema.arrayOf t).asRequired ∧
          (∀ u, distinct types = [u] → t = u) ∧
          ((distinct types).length ≠ 1 → t = .ofKind (.oneOf (distinct types)))) ∧
    (inference.typeOf (.sequence []) = .ok (Schema.arrayOf (.primitive .any)).asRequired ∧
      inference.oneOf [] = .error .emptyUnion) ∧
    ∀ x, inference.typeOf (.sequence [x]) = (inference.arrayOf x).map (·.schema.asRequired) := by
  have hnil : inference.typesOf [] = .ok [] := by rw [typesOf]
  refine ⟨fun front x back e hfront he => ?_, fun xs types hne hnames hall => ?_,
    ⟨typeOf_sequence hnil, ?_⟩, typeOf_singleton inference⟩
  · have htypes : inference.typesOf (front ++ x :: back) = .error e :=
      typesOf_of_first_error hfront he
    exact ⟨typeOf_sequence_error htypes, oneOf_error htypes⟩
  · have htypes : inference.typesOf xs = .ok types := typesOf_eq_ok.2 hall
    have hne' : types ≠ [] := by
      rintro rfl
      exact hne (List.forall₂_nil_right_iff.1 hall)
    have hdistinct : ∀ t ∈ types, t.All Schema.NamesDistinct :=
      inherited_namesDistinct.of_typesOf inference hnames htypes
    obtain ⟨t, ht⟩ := exists_unify types
    refine ⟨distinct_firstOccurrences hdistinct, oneOf_eq_ok htypes hne', ?_, t, ?_,
      fun u hone => ?_, fun hmany => ?_⟩
    · rw [oneOf?_distinct hne', oneOf?_eq_ok hne']
    · rw [typeOf_sequence htypes]
      exact sequenceType_eq_ok.2 ⟨t, ht, rfl⟩
    · exact Except.ok.inj (ht.symm.trans (unify_of_agree hone))
    · exact Except.ok.inj (ht.symm.trans (unify_of_differ hne' hmany))
  · rw [oneOf, hnil]
    rfl

/-- Two flags of one type, and an address between them. -/
def flagEntries : List Config := [.literal (.bool true), .scalar .url, .literal (.bool false)]

/-- The types of `flagEntries`. -/
def flagTypes : List Schema :=
  [(Schema.primitive .bool).asRequired, Declaration.url.schema, (Schema.primitive .bool).asRequired]

theorem distinct_flagTypes : distinct flagTypes =
    [(Schema.primitive .bool).asRequired, Declaration.url.schema] := by
  have hempty : (∅ : Options).entries = [] := rfl
  simp [flagTypes, distinct, Schema.same, Kind.same, Schema.primitive, Schema.asRequired, ofKind,
    Declaration.url, Declaration.flagged, Declaration.ofSchema, Options.same, Options.same.go,
    Options.empty, Options.add, Options.insertNew, hempty]

theorem sequence_unifies_flags :
    (∀ x ∈ flagEntries, x.DeclaresOnly Schema.NamesDistinct) ∧
      List.Forall₂ (fun x t => standard.typeOf x = .ok t) flagEntries flagTypes ∧
      standard.oneOf flagEntries = .ok (.ofSchema (.ofKind (.oneOf (distinct flagTypes)))) ∧
      standard.typeOf (.sequence flagEntries) =
        .ok (Schema.arrayOf (.ofKind (.oneOf (distinct flagTypes)))).asRequired ∧
      standard.typeOf (.literal (.bool true)) = .ok (Schema.primitive .bool).asRequired ∧
      standard.typeOf (.node ⟨0⟩) = .error .nodeInType ∧
      standard.typeOf (.sequence ([.literal (.bool true)] ++ .node ⟨0⟩ :: [.scalar .url])) =
        .error .nodeInType ∧
      standard.oneOf ([.literal (.bool true)] ++ .node ⟨0⟩ :: [.scalar .url]) =
        .error .nodeInType := by
  have hflag : ∀ b, standard.typeOf (.literal (.bool b)) =
      .ok (Schema.primitive .bool).asRequired := fun b => by
    unfold typeOf typeOfValue
    rfl
  have hurl : standard.typeOf (.scalar .url) = .ok Declaration.url.schema := by rw [typeOf]
  have hnode : standard.typeOf (.node ⟨0⟩) = .error .nodeInType := by rw [typeOf]
  have hall : List.Forall₂ (fun x t => standard.typeOf x = .ok t) flagEntries flagTypes :=
    .cons (hflag true) (.cons hurl (.cons (hflag false) .nil))
  have hnames : ∀ x ∈ flagEntries, x.DeclaresOnly Schema.NamesDistinct := by
    have hparts : Declaration.url.schema.All Schema.NamesDistinct :=
      all_iff.2 ⟨⟨trivial, fun entry hm => List.mem_singleton.1 hm ▸ trivial⟩,
        fun _ hm => absurd hm List.not_mem_nil⟩
    simp only [flagEntries, List.forall_mem_cons, List.not_mem_nil, false_implies, implies_true,
      and_true]
    refine ⟨⟨⟨?_, ?_⟩, ?_⟩, ⟨⟨?_, ?_⟩, ?_⟩, ⟨⟨?_, ?_⟩, ?_⟩⟩ <;>
      simp [Config.entries, Config.Declares, Value.NamesDistinct, hparts]
  obtain ⟨hfail, hsucceed, -, -⟩ := sequence_unifies standard
  obtain ⟨-, hunion, -, t, hsequence, -, hdiffer⟩ :=
    hsucceed flagEntries flagTypes (by simp [flagEntries]) hnames hall
  have ht := hdiffer (by rw [distinct_flagTypes]; decide)
  obtain ⟨hsequence', hunion'⟩ := hfail [.literal (.bool true)] (.node ⟨0⟩) [.scalar .url]
    .nodeInType (by simpa using ⟨_, hflag true⟩) hnode
  exact ⟨hnames, hall, hunion, ht ▸ hsequence, hflag true, hnode, hsequence', hunion'⟩

end Inference

end StateTree
