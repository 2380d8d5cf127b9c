import StateTree.Proofs.Schema.Same
import StateTree.Proofs.Typing

/-
  What a type takes over from the types that it is made of. A property is inherited if inferring
  and resolving make no type without it as long as the types that are used have it
  (`Schema.Inherited`). So where all declared types in an entry have the property, with all types
  within them, the type of the entry has it as well (`Inherited.of_typeOf`).
-/

namespace StateTree

/-! ## Entries -/

namespace Config

variable {P : Schema → Prop} {config sub : Config}

/-- Objects and records, at any depth, name a field once. -/
structure NamesDistinct (config : Config) : Prop where
  records : ∀ fields, .record fields ∈ config.entries → Fields.Distinct fields
  literals : ∀ v, .literal v ∈ config.entries → v.NamesDistinct

/-- A declaration stands somewhere in an entry, whether it is usable or still pending. -/
def Declares (config : Config) (d : Declaration) : Prop :=
  .scalar d ∈ config.entries ∨ .pending d ∈ config.entries

/-- An entry that names fields once, and whose declared types, with all types within them, are as
`P` says. -/
structure DeclaresOnly (P : Schema → Prop) (config : Config) : Prop where
  names : config.NamesDistinct
  declared : ∀ d, config.Declares d → d.schema.All P

theorem DeclaresOnly.of_subset (h : config.DeclaresOnly P) (hs : sub.entries ⊆ config.entries) :
    sub.DeclaresOnly P where
  names := ⟨fun fields hm => h.names.records fields (hs hm),
    fun v hm => h.names.literals v (hs hm)⟩
  declared := fun d hd => h.declared d (hd.imp (fun hm => hs hm) fun hm => hs hm)

end Config

namespace Schema

variable {P : Schema → Prop} {types : List Schema}

/-- Every type that inferring and resolving make is as `P` says if those that are used are. -/
structure Inherited (P : Schema → Prop) : Prop where
  primitive : ∀ p, P (.primitive p)
  instanceOf : ∀ className, Text.isBlank className = false → P (.ofKind (.instanceOf className))
  asRequired : ∀ t, t.supportsRequired = true → P t → P t.asRequired
  arrayOf : ∀ t, P (.arrayOf t)
  union : ∀ types, types ≠ [] → (∀ t ∈ types, t.All P) → P (.ofKind (.oneOf (distinct types)))
  exactShapeOf : ∀ fields, Fields.Distinct fields → P (.exactShapeOf fields)

/-! ## Types with parts -/

theorem all_distinct (h : ∀ t ∈ types, t.All P) : ∀ t ∈ distinct types, t.All P :=
  fun t hm => h t ((distinct_sublist types).subset hm)

namespace Inherited

variable (hP : Inherited P)
include hP

theorem of_primitive (p : Primitive) : (Schema.primitive p).All P :=
  all_iff.2 ⟨hP.primitive p, fun _ hm => absurd hm List.not_mem_nil⟩

theorem of_asRequired {t : Schema} (h : t.All P) (hs : t.supportsRequired = true) :
    t.asRequired.All P := by
  rw [all_iff] at h
  exact all_iff.2 ⟨hP.asRequired t hs h.1, h.2⟩

theorem of_arrayOf {t : Schema} (h : t.All P) : (Schema.arrayOf t).All P :=
  all_iff.2 ⟨hP.arrayOf t, Kind.all_arrayOf.2 h⟩

theorem of_union (hne : types ≠ []) (h : ∀ t ∈ types, t.All P) :
    (ofKind (.oneOf (distinct types))).All P :=
  all_iff.2 ⟨hP.union types hne h, Kind.all_oneOf.2 (all_distinct h)⟩

theorem of_exactShapeOf {fields : Fields Schema} (hd : Fields.Distinct fields)
    (h : ∀ field ∈ fields, field.2.All P) : (Schema.exactShapeOf fields).All P :=
  all_iff.2 ⟨hP.exactShapeOf fields hd, Kind.all_exactShapeOf.2 h⟩

theorem of_oneOf? {t : Schema} (h : ∀ u ∈ types, u.All P) (ho : oneOf? types = .ok t) :
    t.All P := by
  unfold oneOf? at ho
  split at ho
  · cases ho
  · next hne =>
    cases Except.ok.inj ho
    exact hP.of_union (by simpa using hne) h

theorem of_unify {t : Schema} (h : ∀ u ∈ types, u.All P) (hu : unify types = .ok t) :
    t.All P := by
  rcases unify_cases types with ⟨-, heq⟩ | ⟨_, hone, heq⟩ | ⟨hne, -, heq⟩ <;>
    cases Except.ok.inj (heq.symm.trans hu)
  · exact hP.of_primitive .any
  · exact all_distinct h t (hone ▸ List.mem_singleton_self t)
  · exact hP.of_union hne h

theorem of_sequenceType {t : Schema} (h : ∀ u ∈ types, u.All P)
    (ht : Inference.sequenceType types = .ok t) : t.All P := by
  obtain ⟨item, hitem, rfl⟩ := Inference.sequenceType_eq_ok.1 ht
  exact hP.of_asRequired (hP.of_arrayOf (hP.of_unify h hitem)) rfl

/-! ## Inference -/

variable {inference : Inference} {d : Declaration}

theorem of_settled (p : Primitive) (v : Value) : (Declaration.settled p v).schema.All P :=
  hP.of_asRequired (hP.of_primitive p) rfl

theorem of_instanceOf? {className : String} (h : Declaration.instanceOf? className = .ok d) :
    d.schema.All P := by
  unfold Declaration.instanceOf? at h
  split at h
  · cases h
  · next hblank =>
    cases Except.ok.inj h
    exact all_iff.2 ⟨hP.instanceOf className (Bool.eq_false_iff.2 hblank),
      fun _ hm => absurd hm List.not_mem_nil⟩

theorem of_ofInstance? {className : String} {fields : Fields Value}
    (h : inference.ofInstance? className fields = some d) : d.schema.All P := by
  unfold Inference.ofInstance? at h
  split at h
  · obtain ⟨e, he, rfl⟩ := Option.map_eq_some_iff.1 h
    cases hi : Declaration.instanceOf? className with
    | error _ => simp [hi, Except.toOption] at he
    | ok e' =>
      have heq : e' = e := by simpa [hi, Except.toOption] using he
      subst heq
      exact hP.of_instanceOf? (d := e') hi
  · split at h
    · exact Option.some.inj h ▸ hP.of_settled _ _
    · cases h

theorem of_ofValue? {v : Value} (h : inference.ofValue? v = some d) : d.schema.All P := by
  cases v with
  | null => exact Option.some.inj h ▸ hP.of_primitive .any
  | object fields =>
    simp only [Inference.ofValue?] at h
    split at h
    · exact Option.some.inj h ▸ hP.of_settled _ _
    · split at h
      · exact Option.some.inj h ▸ hP.of_settled _ _
      · cases h
  | instanceOf className fields =>
    simp only [Inference.ofValue?] at h
    split at h
    · exact Option.some.inj h ▸ hP.of_settled _ _
    · exact hP.of_ofInstance? h
  | _ => exact Option.some.inj h ▸ hP.of_settled _ _

theorem of_ofConfig? {config : Config} (h : inference.ofConfig? config = some d) :
    d.schema.All P := by
  unfold Inference.ofConfig? at h
  split at h
  · exact hP.of_ofValue? h
  · obtain ⟨v, -, rfl⟩ := Option.map_eq_some_iff.1 h
    exact hP.of_settled _ _
  · exact Option.some.inj h ▸ hP.of_settled _ _
  · cases h

end Inherited

end Schema

/-! ## Resolution -/

namespace Inference

variable {inference : Inference}

theorem distinct_of_typesOfFields {fields : List (String × Value)} {types : Fields Schema}
    (h : Fields.Distinct fields) (ht : inference.typesOfFields fields = .ok types) :
    types.Distinct := by
  rw [Fields.Distinct, names_of_typesOfFields ht]
  exact h

end Inference

namespace Schema.Inherited

open Inference

variable {P : Schema → Prop}

mutual

theorem of_typeOfValue (hP : Inherited P) (inference : Inference) : ∀ {v : Value} {t : Schema},
    v.NamesDistinct → inference.typeOfValue v = .ok t → t.All P
  | .array items, t, h, ht => by
    rw [typeOfValue] at ht
    obtain ⟨types, htypes, ht⟩ := bind_eq_ok.1 ht
    exact hP.of_sequenceType (of_typesOfItems hP inference h htypes) ht
  | .object fields, t, h, ht => by
    rw [typeOfValue] at ht
    rcases typed_cases ht with ⟨d, hd, rfl⟩ | ⟨-, types, htypes, rfl⟩
    · exact hP.of_ofValue? hd
    · exact hP.of_exactShapeOf (distinct_of_typesOfFields h.1 htypes)
        (of_typesOfFields hP inference h.2 htypes)
  | .instanceOf className fields, t, h, ht => by
    rw [typeOfValue] at ht
    rcases typed_cases ht with ⟨d, hd, rfl⟩ | ⟨-, types, htypes, rfl⟩
    · exact hP.of_ofValue? hd
    · exact hP.of_exactShapeOf (distinct_of_typesOfFields h.1 htypes)
        (of_typesOfFields hP inference h.2 htypes)
  | .null, t, _, ht | .bool _, t, _, ht | .number _, t, _, ht | .string _, t, _, ht
  | .symbol _, t, _, ht | .function _, t, _, ht => by
    unfold typeOfValue at ht
    split at ht <;> cases Except.ok.inj ht
    · exact hP.of_ofValue? ‹_›
    · exact hP.of_exactShapeOf .nil (by simp)

theorem of_typesOfItems (hP : Inherited P) (inference : Inference) : ∀ {items : List Value}
    {types : List Schema}, Value.ItemsDistinct items →
      inference.typesOfItems items = .ok types → ∀ t ∈ types, t.All P
  | [], types, _, htypes => by
    rw [typesOfItems] at htypes
    cases Except.ok.inj htypes
    simp
  | v :: rest, types, h, htypes => by
    rw [typesOfItems] at htypes
    obtain ⟨u, hu, htypes⟩ := bind_eq_ok.1 htypes
    obtain ⟨us, hus, htypes⟩ := bind_eq_ok.1 htypes
    cases Except.ok.inj htypes
    rw [List.forall_mem_cons]
    exact ⟨of_typeOfValue hP inference h.1 hu, of_typesOfItems hP inference h.2 hus⟩

theorem of_typesOfFields (hP : Inherited P) (inference : Inference) :
    ∀ {fields : List (String × Value)} {types : List (String × Schema)},
      Value.FieldsDistinct fields → inference.typesOfFields fields = .ok types →
        ∀ field ∈ types, field.2.All P
  | [], types, _, htypes => by
    rw [typesOfFields] at htypes
    cases Except.ok.inj htypes
    simp
  | (name, v) :: rest, types, h, htypes => by
    rw [typesOfFields] at htypes
    obtain ⟨u, hu, htypes⟩ := bind_eq_ok.1 htypes
    obtain ⟨us, hus, htypes⟩ := bind_eq_ok.1 htypes
    cases Except.ok.inj htypes
    rw [List.forall_mem_cons]
    exact ⟨of_typeOfValue hP inference h.1 hu, of_typesOfFields hP inference h.2 hus⟩

end

mutual

/-- The type of an entry takes over what the types that stand in the entry have in common. -/
theorem of_typeOf (hP : Inherited P) (inference : Inference) : ∀ {config : Config} {t : Schema},
    config.DeclaresOnly P → inference.typeOf config = .ok t → t.All P
  | .node id, t, _, ht => by simp [Inference.typeOf] at ht
  | .pending template, t, h, ht => by
    rw [Inference.typeOf] at ht
    cases Except.ok.inj ht
    exact h.declared template (Or.inr (by simp [Config.entries]))
  | .scalar d, t, h, ht => by
    rw [Inference.typeOf] at ht
    cases Except.ok.inj ht
    exact h.declared d (Or.inl (by simp [Config.entries]))
  | .shape inner required, t, h, ht => by
    rw [Inference.typeOf] at ht
    obtain ⟨u, hu, ht⟩ := bind_eq_ok.1 ht
    have hinner := of_typeOf hP inference (h.of_subset (Config.entries_inner inner required)) hu
    cases Except.ok.inj ht
    split
    · next hrequired => exact hP.of_asRequired hinner (Bool.and_eq_true_iff.1 hrequired).2
    · exact hinner
  | .validates path, t, _, ht => by
    rw [Inference.typeOf] at ht
    cases Except.ok.inj ht
    exact hP.of_primitive .symbol
  | .sequence items, t, h, ht => by
    rw [Inference.typeOf] at ht
    obtain ⟨ts, hts, ht⟩ := bind_eq_ok.1 ht
    exact hP.of_sequenceType
      (of_typesOf hP inference (fun item hm => h.of_subset (Config.entries_item hm)) hts) ht
  | .record fields, t, h, ht => by
    rw [Inference.typeOf] at ht
    rcases typed_cases ht with ⟨d, hd, rfl⟩ | ⟨-, ts, hts, rfl⟩
    · exact hP.of_ofConfig? hd
    · refine hP.of_exactShapeOf ?_
        (of_fieldTypesOf hP inference (fun field hm => h.of_subset (Config.entries_field hm)) hts)
      rw [Fields.Distinct, names_of_fieldTypesOf hts]
      exact h.names.records fields (Config.record_mem_entries fields)
  | .literal v, t, h, ht => by
    rw [Inference.typeOf] at ht
    exact of_typeOfValue hP inference (h.names.literals v (by simp [Config.entries])) ht

theorem of_typesOf (hP : Inherited P) (inference : Inference) : ∀ {items : List Config}
    {ts : List Schema}, (∀ item ∈ items, item.DeclaresOnly P) →
      inference.typesOf items = .ok ts → ∀ t ∈ ts, t.All P
  | [], ts, _, hts => by
    rw [typesOf] at hts
    cases Except.ok.inj hts
    simp
  | item :: rest, ts, h, hts => by
    rw [typesOf] at hts
    obtain ⟨u, hu, hts⟩ := bind_eq_ok.1 hts
    obtain ⟨us, hus, hts⟩ := bind_eq_ok.1 hts
    cases Except.ok.inj hts
    rw [List.forall_mem_cons] at h ⊢
    exact ⟨of_typeOf hP inference h.1 hu, of_typesOf hP inference h.2 hus⟩

theorem of_fieldTypesOf (hP : Inherited P) (inference : Inference) :
    ∀ {fields : List (String × Config)} {ts : List (String × Schema)},
      (∀ field ∈ fields, field.2.DeclaresOnly P) →
        inference.fieldTypesOf fields = .ok ts → ∀ field ∈ ts, field.2.All P
  | [], ts, _, hts => by
    rw [fieldTypesOf] at hts
    cases Except.ok.inj hts
    simp
  | (name, entry) :: rest, ts, h, hts => by
    rw [fieldTypesOf] at hts
    obtain ⟨u, hu, hts⟩ := bind_eq_ok.1 hts
    obtain ⟨us, hus, hts⟩ := bind_eq_ok.1 hts
    cases Except.ok.inj hts
    rw [List.forall_mem_cons] at h ⊢
    exact ⟨of_typeOf hP inference h.1 hu, of_fieldTypesOf hP inference h.2 hus⟩

end

end Schema.Inherited

/-! ## Names that stand once -/

namespace Schema

theorem namesDistinct_ofKind {kind : Kind} (h : kind.NamesDistinct) :
    (ofKind kind).NamesDistinct :=
  ⟨h, fun _ hm => absurd hm List.not_mem_nil⟩

/-- Inferring and resolving never use a name twice. -/
theorem inherited_namesDistinct : Inherited NamesDistinct where
  primitive := fun _ => namesDistinct_ofKind trivial
  instanceOf := fun _ _ => namesDistinct_ofKind trivial
  asRequired := fun _ _ h => ⟨h.kind, h.options⟩
  arrayOf := fun _ => namesDistinct_ofKind trivial
  union := fun _ _ _ => namesDistinct_ofKind trivial
  exactShapeOf := fun _ hd => namesDistinct_ofKind hd

end Schema

end StateTree
