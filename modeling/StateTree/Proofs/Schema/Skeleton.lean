import StateTree.Proofs.Schema.Inherited

/-
  What the type of an entry depends on. Two entries have the same skeleton if they differ only in
  the order of fields, in what literals hold, in the defaults and reset flags of declarations and in
  the paths of validations. Main statement: entries of the same skeleton have equal types
  (`typeOf_sameSkeleton`). Equality of types is not transitive, so it would not do to show that the
  parts of both types are equal; they are interchangeable: whatever type is compared with them
  equals both or neither. So the same items of a sequence are left out as repetitions.
-/

namespace StateTree

namespace Schema

/-- Two types that no comparison with a third one tells apart. -/
structure Interchangeable (t u : Schema) : Prop where
  left : t.All NamesDistinct
  right : u.All NamesDistinct
  same_eq : ∀ v, v.All NamesDistinct → t.same v = u.same v

namespace Interchangeable

variable {t u t' u' : Schema}

theorem refl (h : t.All NamesDistinct) : Interchangeable t t := ⟨h, h, fun _ _ => rfl⟩

theorem symm (h : Interchangeable t u) : Interchangeable u t :=
  ⟨h.right, h.left, fun v hv => (h.same_eq v hv).symm⟩

theorem same (h : Interchangeable t u) : t.same u = true :=
  (h.same_eq u h.right).trans (same_self h.right)

/-- Replacing both sides of a comparison makes no difference. -/
theorem same_congr (h : Interchangeable t u) (h' : Interchangeable t' u') :
    t.same t' = u.same u' :=
  calc t.same t' = u.same t' := h.same_eq t' h'.left
    _ = t'.same u := same_comm h.right h'.left
    _ = u'.same u := h'.same_eq u h.right
    _ = u.same u' := same_comm h'.right h.right

/-! ## Types with parts -/

/-- It is enough to compare kinds where all else is the same. -/
theorem of_kind {k l : Kind} {required : Bool} {options : Options}
    (hk : Schema.All NamesDistinct ⟨k, required, options⟩)
    (hl : Schema.All NamesDistinct ⟨l, required, options⟩)
    (h : ∀ kind : Kind, kind.All NamesDistinct → k.same kind = l.same kind) :
    Interchangeable ⟨k, required, options⟩ ⟨l, required, options⟩ where
  left := hk
  right := hl
  same_eq := fun v hv => by rw [Schema.same, Schema.same, h v.kind (all_iff.1 hv).2]

theorem required_eq (h : Interchangeable t u) : t.required = u.required := by
  have hsame := h.same
  obtain ⟨kind, required, options⟩ := t
  rw [Schema.same, Bool.and_eq_true, Bool.and_eq_true, beq_iff_eq] at hsame
  exact hsame.1.2

theorem supportsRequired_eq (h : Interchangeable t u) :
    t.supportsRequired = u.supportsRequired := by
  have hsame := h.same
  obtain ⟨kind, required, options⟩ := t
  obtain ⟨kind', required', options'⟩ := u
  rw [Schema.same, Bool.and_eq_true, Bool.and_eq_true] at hsame
  have hkind := hsame.1.1
  cases kind <;> cases kind' <;> simp_all [Kind.same, Schema.supportsRequired]

theorem asRequired (h : Interchangeable t u) (hs : t.supportsRequired = true) :
    Interchangeable t.asRequired u.asRequired where
  left := inherited_namesDistinct.of_asRequired h.left hs
  right := inherited_namesDistinct.of_asRequired h.right (h.supportsRequired_eq ▸ hs)
  same_eq := fun v hv => by
    have hrequired := h.required_eq
    -- Whether a value is required is settled, so the third type may agree with these two in it.
    obtain ⟨hnames, hparts⟩ := all_iff.1 hv
    have hsame := h.same_eq { v with required := t.required }
      (all_iff.2 ⟨⟨hnames.kind, hnames.options⟩, hparts⟩)
    obtain ⟨kind, required, options⟩ := t
    obtain ⟨kind', required', options'⟩ := u
    cases hrequired
    simp only [Schema.same, Schema.asRequired, BEq.rfl, Bool.and_true] at hsame ⊢
    rw [Bool.and_right_comm, hsame, Bool.and_right_comm]

theorem arrayOf (h : Interchangeable t u) :
    Interchangeable (Schema.arrayOf t) (Schema.arrayOf u) := by
  refine of_kind (inherited_namesDistinct.of_arrayOf h.left)
    (inherited_namesDistinct.of_arrayOf h.right) fun kind hkind => ?_
  cases kind with
  | arrayOf v =>
    rw [Kind.same, Kind.same]
    exact h.same_eq v (Kind.all_arrayOf.1 hkind)
  | _ => simp only [Kind.same]

theorem sameList_eq {ts us vs : List Schema} (h : List.Forall₂ Interchangeable ts us)
    (hv : ∀ v ∈ vs, v.All NamesDistinct) : sameList ts vs = sameList us vs := by
  induction h generalizing vs with
  | nil => rfl
  | cons hone _ ih =>
    cases vs with
    | nil => simp only [sameList]
    | cons v vs =>
      rw [List.forall_mem_cons] at hv
      rw [sameList, sameList, hone.same_eq v hv.1, ih hv.2]

theorem union {ts us : List Schema} (h : List.Forall₂ Interchangeable ts us)
    (ht : (ofKind (.oneOf ts)).All NamesDistinct) (hu : (ofKind (.oneOf us)).All NamesDistinct) :
    Interchangeable (ofKind (.oneOf ts)) (ofKind (.oneOf us)) := by
  refine of_kind ht hu fun kind hkind => ?_
  cases kind with
  | oneOf vs =>
    rw [Kind.same, Kind.same]
    exact sameList_eq h (Kind.all_oneOf.1 hkind)
  | _ => simp only [Kind.same]

section Fields

variable {fs gs hs : Fields Schema}

/-- The fields have the same names, and what a name stands for here and there is interchangeable. -/
structure SameFields (fs gs : Fields Schema) : Prop where
  names : fs.names.Perm gs.names
  distinct : fs.Distinct
  fields : ∀ name t u, fs.get? name = some t → gs.get? name = some u → Interchangeable t u

theorem SameFields.exists_get? (h : SameFields fs gs) {name : String} {t : Schema}
    (hm : (name, t) ∈ fs) : ∃ u, gs.get? name = some u ∧ Interchangeable t u := by
  have hname : name ∈ gs.names := h.names.mem_iff.1 (List.mem_map_of_mem hm)
  obtain ⟨u, hu⟩ := Option.isSome_iff_exists.1 ((Fields.mem_names_iff gs name).1 hname)
  exact ⟨u, hu, h.fields name t u (Fields.get?_of_mem h.distinct hm) hu⟩

theorem SameFields.symm (h : SameFields fs gs) : SameFields gs fs where
  names := h.names.symm
  distinct := h.names.nodup_iff.1 h.distinct
  fields := fun name u t hu ht => (h.fields name t u ht hu).symm

theorem SameFields.all (h : SameFields fs gs) : ∀ field ∈ fs, field.2.All NamesDistinct :=
  fun _ hm => by
    obtain ⟨_, _, hone⟩ := h.exists_get? hm
    exact hone.left

theorem SameFields.sameFields (h : SameFields fs gs) (hv : ∀ field ∈ hs, field.2.All NamesDistinct)
    (hsame : Schema.sameFields gs hs = true) : Schema.sameFields fs hs = true := by
  rw [sameFields_eq_all, Fields.all_get?_iff] at hsame ⊢
  intro name t hm
  obtain ⟨u, hu, hone⟩ := h.exists_get? hm
  obtain ⟨v, hget, hsame⟩ := hsame name u (Fields.mem_of_get? hu)
  exact ⟨v, hget, (hone.same_eq v (hv _ (Fields.mem_of_get? hget))).trans hsame⟩

theorem exactShapeOf (h : SameFields fs gs) :
    Interchangeable (Schema.exactShapeOf fs) (Schema.exactShapeOf gs) := by
  refine of_kind (inherited_namesDistinct.of_exactShapeOf h.distinct h.all)
    (inherited_namesDistinct.of_exactShapeOf h.symm.distinct h.symm.all) fun kind hkind => ?_
  have hlen : fs.length = gs.length := Fields.length_eq_of_perm h.names
  cases kind with
  | exactShapeOf hs =>
    rw [Kind.all_exactShapeOf] at hkind
    have hsame : Schema.sameFields fs hs = Schema.sameFields gs hs :=
      Bool.eq_iff_iff.2 ⟨h.symm.sameFields hkind, h.sameFields hkind⟩
    rw [Kind.same, Kind.same, hlen, hsame]
  | _ => simp only [Kind.same]

end Fields

/-! ## Leaving out repetitions -/

theorem forall₂_foldl {seen seen' ts us : List Schema}
    (hseen : List.Forall₂ Interchangeable seen seen') (h : List.Forall₂ Interchangeable ts us) :
    List.Forall₂ Interchangeable
      (ts.foldl (fun seen t => if seen.any (·.same t) then seen else seen ++ [t]) seen)
      (us.foldl (fun seen t => if seen.any (·.same t) then seen else seen ++ [t]) seen') := by
  induction h generalizing seen seen' with
  | nil => exact hseen
  | @cons t u _ _ hone _ ih =>
    have hany : seen.any (·.same t) = seen'.any (·.same u) := by
      clear ih
      induction hseen with
      | nil => rfl
      | cons hone' _ ih => rw [List.any_cons, List.any_cons, hone'.same_congr hone, ih]
    rw [List.foldl_cons, List.foldl_cons, hany]
    split
    · exact ih hseen
    · exact ih (List.rel_append hseen (.cons hone .nil))

/-- The same places are left out as repetitions. -/
theorem forall₂_distinct {ts us : List Schema} (h : List.Forall₂ Interchangeable ts us) :
    List.Forall₂ Interchangeable (distinct ts) (distinct us) := forall₂_foldl .nil h

/-- Items whose types are interchangeable have interchangeable types in common. -/
theorem unify {ts us : List Schema} (h : List.Forall₂ Interchangeable ts us)
    (ht : Schema.unify ts = .ok t) (hu : Schema.unify us = .ok u) : Interchangeable t u := by
  have hleft : t.All NamesDistinct := inherited_namesDistinct.of_unify (fun _ hm => by
    obtain ⟨_, hone⟩ := exists_of_forall₂ h hm
    exact hone.left) ht
  have hright : u.All NamesDistinct := inherited_namesDistinct.of_unify (fun _ hm => by
    obtain ⟨_, hone⟩ := exists_of_forall₂ h.flip hm
    exact hone.right) hu
  have hdistinct := forall₂_distinct h
  rcases unify_cases ts with ⟨rfl, heq⟩ | ⟨t', hone, heq⟩ | ⟨hne, hmany, heq⟩
  · cases List.forall₂_nil_left_iff.1 h
    cases Except.ok.inj (ht.symm.trans hu)
    exact refl hleft
  · rw [hone] at hdistinct
    obtain ⟨u', rest, hsame, hrest, hone'⟩ := List.forall₂_cons_left_iff.1 hdistinct
    cases hrest
    cases Except.ok.inj (heq.symm.trans ht)
    cases Except.ok.inj ((unify_of_agree hone').symm.trans hu)
    exact hsame
  · have hne' : us ≠ [] := by
      rintro rfl
      exact hne (List.forall₂_nil_right_iff.1 h)
    cases Except.ok.inj (heq.symm.trans ht)
    cases Except.ok.inj
      ((unify_of_differ hne' (hdistinct.length_eq ▸ hmany)).symm.trans hu)
    exact union hdistinct hleft hright

theorem sequenceType {ts us : List Schema} (h : List.Forall₂ Interchangeable ts us)
    (ht : Inference.sequenceType ts = .ok t) (hu : Inference.sequenceType us = .ok u) :
    Interchangeable t u := by
  obtain ⟨item, hitem, rfl⟩ := Inference.sequenceType_eq_ok.1 ht
  obtain ⟨item', hitem', rfl⟩ := Inference.sequenceType_eq_ok.1 hu
  exact (arrayOf (unify h hitem hitem')).asRequired rfl

end Interchangeable

end Schema

/-! ## Skeletons -/

namespace Inference

/-- Two literals differ at most in what they hold. Instances that are kept may differ in all but
their class. -/
inductive SameKind (inference : Inference) : Value → Value → Prop
  | null : SameKind inference .null .null
  | bool (a b : Bool) : SameKind inference (.bool a) (.bool b)
  | number (m n : Number) : SameKind inference (.number m) (.number n)
  | string (s t : String) : SameKind inference (.string s) (.string t)
  | symbol (s t : String) : SameKind inference (.symbol s) (.symbol t)
  | function (s t : String) : SameKind inference (.function s) (.function t)
  | instanceOf {className : String} (hkept : inference.instances = .instanceOf)
      (hclass : Text.isBlank className = false) (xs ys : List (String × Value)) :
      SameKind inference (.instanceOf className xs) (.instanceOf className ys)

end Inference

namespace Config

/-- The declaration that an entry is, whether it is usable or still pending. -/
def declaration? : Config → Option Declaration
  | .scalar d => some d
  | .pending d => some d
  | _ => none

theorem typeOf_of_declaration? (inference : Inference) {c : Config} {d : Declaration}
    (h : c.declaration? = some d) : inference.typeOf c = .ok d.schema := by
  cases c <;> simp_all [declaration?, Inference.typeOf]

/-- Two entries differ at most in the order of fields, in what literals hold, in the defaults and
reset flags of declarations and in the paths of validations. Nodes have no skeleton. -/
inductive SameSkeleton (inference : Inference) : Config → Config → Prop
  | declared {c c' : Config} {d d' : Declaration} (hc : c.declaration? = some d)
      (hc' : c'.declaration? = some d') (h : d.schema = d'.schema) : SameSkeleton inference c c'
  | shape {inner inner' : Config} (required : Bool) (h : SameSkeleton inference inner inner') :
      SameSkeleton inference (.shape inner required) (.shape inner' required)
  | validates (path path' : Path) : SameSkeleton inference (.validates path) (.validates path')
  | sequence {items items' : List Config} (hlen : items.length = items'.length)
      (h : ∀ p ∈ items.zip items', SameSkeleton inference p.1 p.2) :
      SameSkeleton inference (.sequence items) (.sequence items')
  | record {fields fields' : Fields Config} (hnames : fields.names.Perm fields'.names)
      (h : ∀ name c c', fields.get? name = some c → fields'.get? name = some c' →
        SameSkeleton inference c c') :
      SameSkeleton inference (.record fields) (.record fields')
  | literal {v v' : Value} (h : Value.Matched inference.SameKind v v') :
      SameSkeleton inference (.literal v) (.literal v')

end Config

namespace Inference

open Schema Schema.Interchangeable

variable {inference : Inference} {v w : Value} {t t' : Schema}

/-! ## Types of literals -/

theorem typeOfValue_of_sameKind (hel : ∀ v, inference.isElement v = false)
    (h : inference.SameKind v w) : inference.typeOfValue v = inference.typeOfValue w := by
  cases h with
  | instanceOf hkept hclass xs ys =>
    simp only [typeOfValue, ofValue?, hel, ofInstance?, hkept, Declaration.instanceOf?, hclass]
    rfl
  | _ => unfold typeOfValue; rfl

section Fields

variable {xs ys : Fields Value}

/-- Which type is inferred from an object, if any, depends on whether it is empty. -/
theorem schema_ofValue?_object (hel : ∀ v, inference.isElement v = false)
    (hempty : xs.isEmpty = ys.isEmpty) :
    (inference.ofValue? (.object xs)).map (·.schema) =
      (inference.ofValue? (.object ys)).map (·.schema) := by
  simp only [ofValue?, hel, hempty]
  cases ys.isEmpty <;> rfl

/-- Which type is inferred from an instance, if any, depends on its class and on whether it is
empty. -/
theorem schema_ofValue?_instanceOf (hel : ∀ v, inference.isElement v = false)
    (className : String) (hempty : xs.isEmpty = ys.isEmpty) :
    (inference.ofValue? (.instanceOf className xs)).map (·.schema) =
      (inference.ofValue? (.instanceOf className ys)).map (·.schema) := by
  simp only [ofValue?, hel, ofInstance?, hempty]
  cases inference.instances with
  | instanceOf => cases Declaration.instanceOf? className <;> rfl
  | expand => cases ys.isEmpty <;> rfl

theorem sameFields_of_typesOfFields {types types' : Fields Schema}
    (hx : xs.Distinct ∧ Value.FieldsDistinct xs) (hy : ys.Distinct ∧ Value.FieldsDistinct ys)
    (hnames : xs.names.Perm ys.names) (hts : inference.typesOfFields xs = .ok types)
    (hts' : inference.typesOfFields ys = .ok types')
    (h : ∀ name x y, xs.get? name = some x → ys.get? name = some y → ∀ {t t' : Schema},
      x.NamesDistinct → y.NamesDistinct → inference.typeOfValue x = .ok t →
        inference.typeOfValue y = .ok t' → Interchangeable t t') : SameFields types types' where
  names := by
    rw [names_of_typesOfFields hts, names_of_typesOfFields hts']
    exact hnames
  distinct := distinct_of_typesOfFields hx.1 hts
  fields := fun name t t' ht ht' => by
    obtain ⟨x, hgetx, htx⟩ := exists_get?_of_typesOfFields hts ht
    obtain ⟨y, hgety, hty⟩ := exists_get?_of_typesOfFields hts' ht'
    exact h name x y hgetx hgety
      (Value.namesDistinct_of_mem_fields hx.2 _ (Fields.mem_of_get? hgetx))
      (Value.namesDistinct_of_mem_fields hy.2 _ (Fields.mem_of_get? hgety)) htx hty

/-- Where the same is inferred, or nothing, the rest is left to the fields. -/
theorem interchangeable_of_typed (hschema : (inference.ofValue? v).map (·.schema) =
      (inference.ofValue? w).map (·.schema))
    (ht : (match inference.ofValue? v with
      | some d => .ok d.schema
      | none => do return .exactShapeOf (← inference.typesOfFields xs) :
        Except Error Schema) = .ok t)
    (ht' : (match inference.ofValue? w with
      | some d => .ok d.schema
      | none => do return .exactShapeOf (← inference.typesOfFields ys) :
        Except Error Schema) = .ok t')
    (h : ∀ {types types' : Fields Schema}, inference.typesOfFields xs = .ok types →
      inference.typesOfFields ys = .ok types' → SameFields types types') :
    Interchangeable t t' := by
  rcases typed_cases ht with ⟨d, hd, rfl⟩ | ⟨hd, types, htypes, rfl⟩ <;>
    rcases typed_cases ht' with ⟨d', hd', rfl⟩ | ⟨hd', types', htypes', rfl⟩ <;>
    rw [hd, hd'] at hschema
  · have heq : d.schema = d'.schema := Option.some.inj hschema
    exact heq ▸ refl (inherited_namesDistinct.of_ofValue? hd)
  · cases hschema
  · cases hschema
  · exact Interchangeable.exactShapeOf (h htypes htypes')

end Fields

theorem interchangeable_of_matched (hel : ∀ v, inference.isElement v = false)
    (h : Value.Matched inference.SameKind v w) (hv : v.NamesDistinct) (hw : w.NamesDistinct)
    (ht : inference.typeOfValue v = .ok t) (ht' : inference.typeOfValue w = .ok t') :
    Interchangeable t t' := by
  induction h generalizing t t' with
  | related h =>
    rw [← typeOfValue_of_sameKind hel h] at ht'
    cases Except.ok.inj (ht.symm.trans ht')
    exact refl (inherited_namesDistinct.of_typeOfValue inference hv ht)
  | array hlen _ ih =>
    rw [typeOfValue] at ht ht'
    obtain ⟨types, htypes, ht⟩ := bind_eq_ok.1 ht
    obtain ⟨types', htypes', ht'⟩ := bind_eq_ok.1 ht'
    rw [typesOfItems_eq_ok] at htypes htypes'
    exact Interchangeable.sequenceType (forall₂_of_forall₂_zip hlen htypes htypes'
      fun p hm _ _ => ih p hm (Value.namesDistinct_of_mem_items hv _ (List.of_mem_zip hm).1)
        (Value.namesDistinct_of_mem_items hw _ (List.of_mem_zip hm).2)) ht ht'
  | object hnames _ ih =>
    rw [typeOfValue] at ht ht'
    exact interchangeable_of_typed
      (schema_ofValue?_object hel (Fields.isEmpty_eq_of_perm hnames)) ht ht'
      fun hts hts' => sameFields_of_typesOfFields hv hw hnames hts hts' ih
  | instanceOf hnames _ ih =>
    rw [typeOfValue] at ht ht'
    exact interchangeable_of_typed
      (schema_ofValue?_instanceOf hel _ (Fields.isEmpty_eq_of_perm hnames)) ht ht'
      fun hts hts' => sameFields_of_typesOfFields hv hw hnames hts hts' ih

/-! ## Types of entries -/

variable {c c' : Config}

theorem interchangeable_of_sameSkeleton (hel : ∀ v, inference.isElement v = false)
    (h : Config.SameSkeleton inference c c') (hc : c.DeclaresOnly Schema.NamesDistinct)
    (hc' : c'.DeclaresOnly Schema.NamesDistinct) (ht : inference.typeOf c = .ok t)
    (ht' : inference.typeOf c' = .ok t') : Interchangeable t t' := by
  induction h generalizing t t' with
  | @declared c c' d d' hd hd' hschema =>
    have htyped := Config.typeOf_of_declaration? inference hd
    have htyped' := Config.typeOf_of_declaration? inference hd'
    rw [ht, Except.ok.injEq] at htyped
    rw [ht', Except.ok.injEq] at htyped'
    rw [htyped', ← hschema, ← htyped]
    exact refl (inherited_namesDistinct.of_typeOf inference hc ht)
  | @shape inner inner' required _ ih =>
    rw [typeOf] at ht ht'
    obtain ⟨u, hu, ht⟩ := bind_eq_ok.1 ht
    obtain ⟨u', hu', ht'⟩ := bind_eq_ok.1 ht'
    cases Except.ok.inj ht
    cases Except.ok.inj ht'
    have hinner := ih (hc.of_subset (Config.entries_inner inner required))
      (hc'.of_subset (Config.entries_inner inner' required)) hu hu'
    rw [← hinner.supportsRequired_eq]
    split
    · next hboth => exact hinner.asRequired (Bool.and_eq_true_iff.1 hboth).2
    · exact hinner
  | validates path path' =>
    rw [typeOf] at ht ht'
    cases Except.ok.inj ht
    cases Except.ok.inj ht'
    exact refl (inherited_namesDistinct.of_primitive .symbol)
  | sequence hlen _ ih =>
    rw [typeOf] at ht ht'
    obtain ⟨ts, hts, ht⟩ := bind_eq_ok.1 ht
    obtain ⟨ts', hts', ht'⟩ := bind_eq_ok.1 ht'
    rw [typesOf_eq_ok] at hts hts'
    exact Interchangeable.sequenceType (forall₂_of_forall₂_zip hlen hts hts' fun p hm _ _ =>
      ih p hm (hc.of_subset (Config.entries_item (List.of_mem_zip hm).1))
        (hc'.of_subset (Config.entries_item (List.of_mem_zip hm).2))) ht ht'
  | @record fields fields' hnames _ ih =>
    by_cases hnil : fields = []
    · have hnil' : fields' = [] := by simpa [hnil, Fields.names] using hnames
      subst hnil hnil'
      rw [ht, Except.ok.injEq] at ht'
      exact ht' ▸ refl (inherited_namesDistinct.of_typeOf inference hc ht)
    · have hnil' : fields' ≠ [] := by
        rintro rfl
        exact hnil (by simpa [Fields.names] using hnames)
      obtain ⟨types, htypes, rfl⟩ := fieldTypesOf_of_record hnil ht
      obtain ⟨types', htypes', rfl⟩ := fieldTypesOf_of_record hnil' ht'
      refine Interchangeable.exactShapeOf ⟨?_, ?_, fun name u u' hu hu' => ?_⟩
      · rw [names_of_fieldTypesOf htypes, names_of_fieldTypesOf htypes']
        exact hnames
      · rw [Fields.Distinct, names_of_fieldTypesOf htypes]
        exact hc.names.records fields (Config.record_mem_entries fields)
      · obtain ⟨entry, hget, htype⟩ := exists_get?_of_fieldTypesOf htypes hu
        obtain ⟨entry', hget', htype'⟩ := exists_get?_of_fieldTypesOf htypes' hu'
        exact ih name entry entry' hget hget'
          (hc.of_subset (Config.entries_field (Fields.mem_of_get? hget)))
          (hc'.of_subset (Config.entries_field (Fields.mem_of_get? hget'))) htype htype'
  | literal h =>
    rw [typeOf] at ht ht'
    exact interchangeable_of_matched hel h (hc.names.literals _ (by simp [Config.entries]))
      (hc'.names.literals _ (by simp [Config.entries])) ht ht'

/-- Entries of the same skeleton have types, and whichever type is compared with the other, they are
equal. -/
theorem typeOf_sameSkeleton (hel : ∀ v, inference.isElement v = false)
    (h : Config.SameSkeleton inference c c') (hfree : c.NodeFree) (hfree' : c'.NodeFree)
    (hc : c.DeclaresOnly Schema.NamesDistinct) (hc' : c'.DeclaresOnly Schema.NamesDistinct) :
    ∃ t t', inference.typeOf c = .ok t ∧ inference.typeOf c' = .ok t' ∧
      t.same t' = true ∧ t'.same t = true := by
  obtain ⟨t, ht⟩ := exists_typeOf inference hfree
  obtain ⟨t', ht'⟩ := exists_typeOf inference hfree'
  have htypes := interchangeable_of_sameSkeleton hel h hc hc' ht ht'
  exact ⟨t, t', ht, ht', htypes.same, htypes.symm.same⟩

/-- What a form declares as its limit, with a default or waiting for one. -/
def limit (default? : Option Value) (reset : Bool) : Declaration :=
  ⟨(Schema.primitive .number).asRequired, default?, reset⟩

/-- A form whose marks are of two types, one of them standing twice. -/
def form : Config :=
  .record [("limit", .scalar (limit (some (.number (.int 3))) false)),
    ("marks", .sequence [.literal (.string "new"), .literal (.string "old"),
      .literal (.object [("on", .bool true), ("by", .instanceOf "User" [("id", .null)])])]),
    ("check", .validates "limit")]

/-- The form in another order, with other marks and another check, waiting for its limit. -/
def pendingForm : Config :=
  .record [("check", .validates "/marks"),
    ("marks", .sequence [.literal (.string "done"), .literal (.string "done"),
      .literal (.object [("by", .instanceOf "User" []), ("on", .bool false)])]),
    ("limit", .pending (limit none true))]

/-- The type of the form, in which a mark is of one of two types. -/
def formType : Schema :=
  let mark := Schema.exactShapeOf
    [("on", (Schema.primitive .bool).asRequired), ("by", .ofKind (.instanceOf "User"))]
  .exactShapeOf [("limit", (Schema.primitive .number).asRequired),
    ("marks", (Schema.arrayOf
      (.ofKind (.oneOf [(Schema.primitive .string).asRequired, mark]))).asRequired),
    ("check", .marker)]

theorem typeOf_form : standard.typeOf form = .ok formType := by cbv

theorem sameSkeleton_form : Config.SameSkeleton standard form pendingForm := by
  have huser : standard.SameKind (.instanceOf "User" [("id", .null)]) (.instanceOf "User" []) :=
    .instanceOf rfl (by decide) _ _
  have hmark : Value.Matched standard.SameKind
      (.object [("on", .bool true), ("by", .instanceOf "User" [("id", .null)])])
      (.object [("by", .instanceOf "User" []), ("on", .bool false)]) := by
    refine .object (List.Perm.swap _ _ _) fun name x y hx hy => .related ?_
    have hm := Fields.mem_of_get? hx
    simp only [List.mem_cons, Prod.mk.injEq, List.not_mem_nil, or_false] at hm
    rcases hm with ⟨rfl, rfl⟩ | ⟨rfl, rfl⟩
    · exact Option.some.inj hy ▸ .bool true false
    · exact Option.some.inj hy ▸ huser
  refine .record (by decide) fun name c c' hc hc' => ?_
  have hm := Fields.mem_of_get? hc
  simp only [List.mem_cons, Prod.mk.injEq, List.not_mem_nil, or_false] at hm
  rcases hm with ⟨rfl, rfl⟩ | ⟨rfl, rfl⟩ | ⟨rfl, rfl⟩
  · exact Option.some.inj hc' ▸ .declared rfl rfl rfl
  · refine Option.some.inj hc' ▸ .sequence rfl ?_
    simpa using ⟨.literal (.related (.string _ _)), .literal (.related (.string _ _)),
      .literal hmark⟩
  · exact Option.some.inj hc' ▸ .validates _ _

theorem declaresOnly_of_limit {config : Config} (names : config.NamesDistinct)
    (default? : Option Value) (reset : Bool)
    (h : ∀ d, config.Declares d → d = limit default? reset) :
    config.DeclaresOnly Schema.NamesDistinct where
  names := names
  declared := fun d hd => by
    rw [h d hd]
    exact inherited_namesDistinct.of_asRequired (inherited_namesDistinct.of_primitive _) rfl

theorem typeOf_sameSkeleton_form :
    Config.SameSkeleton standard form pendingForm ∧ standard.typeOf form = .ok formType ∧
      ∃ t, standard.typeOf pendingForm = .ok t ∧
        formType.same t = true ∧ t.same formType = true := by
  have hform : form.DeclaresOnly Schema.NamesDistinct := by
    refine declaresOnly_of_limit ⟨?_, ?_⟩ (some (.number (.int 3))) false ?_ <;>
      simp [form, Config.Declares, Config.entries, Config.itemEntries, Config.fieldEntries,
        Fields.Distinct, Fields.names, Value.NamesDistinct, Value.FieldsDistinct]
  have hpending : pendingForm.DeclaresOnly Schema.NamesDistinct := by
    refine declaresOnly_of_limit ⟨?_, ?_⟩ none true ?_ <;>
      simp [pendingForm, Config.Declares, Config.entries, Config.itemEntries,
        Config.fieldEntries, Fields.Distinct, Fields.names, Value.NamesDistinct,
        Value.FieldsDistinct]
  have hfree : form.NodeFree := by
    simp [form, Config.NodeFree, Config.entries, Config.itemEntries, Config.fieldEntries]
  have hfree' : pendingForm.NodeFree := by
    simp [pendingForm, Config.NodeFree, Config.entries, Config.itemEntries, Config.fieldEntries]
  obtain ⟨t, t', ht, ht', hsame, hsame'⟩ :=
    typeOf_sameSkeleton (fun _ => rfl) sameSkeleton_form hfree hfree' hform hpending
  rw [typeOf_form, Except.ok.injEq] at ht
  subst ht
  exact ⟨sameSkeleton_form, typeOf_form, t', ht', hsame, hsame'⟩

end Inference

end StateTree
