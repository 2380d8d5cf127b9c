import StateTree.Proofs.Schema.Inherited

/-
  Sound types. A type is sound if its kind takes each of its options, with a value of the right
  form, if it is required only where its kind can be, and if its kind is as the builders make it:
  a union of candidates that differ pairwise, an enumeration of something, a class with a name.
  Whatever way a declaration is obtained, its type is sound, and so are all types within it
  (`sound_of_obtained`).
-/

namespace StateTree

/-! ## What sound types are -/

/-- The parts of a kind are as they should be, apart from the types among them. -/
def Kind.Sound : Kind → Prop
  | .enum values => values ≠ [] ∧ Value.ItemsDistinct values
  | .instanceOf className => Text.isBlank className = false
  | .oneOf candidates =>
    candidates ≠ [] ∧ candidates.Pairwise fun t u => t.same u = false ∧ u.same t = false
  | .shapeOf fields => Fields.Distinct fields
  | .exactShapeOf fields => Fields.Distinct fields
  | .primitive _ | .custom _ | .arrayOf _ | .objectOf _ => True

/-- A type is as it should be, apart from the types within it. -/
structure Schema.Sound (t : Schema) : Prop where
  kind : t.kind.Sound
  options : ∀ entry ∈ t.options.entries,
    ∃ form, t.kind.optionForm? entry.1 = some form ∧ form.accepts entry.2 = true
  custom : ∀ check, t.kind = .custom check → t.required = false

/-- Options hold no objects. -/
theorem OptionForm.namesDistinct_of_accepts {form : OptionForm} {v : Value}
    (h : form.accepts v = true) : v.NamesDistinct := by
  cases v <;> first | trivial | simp [OptionForm.accepts] at h

theorem Kind.Sound.namesDistinct : ∀ {kind : Kind}, kind.Sound → kind.NamesDistinct
  | .enum _, h => h.2
  | .shapeOf _, h | .exactShapeOf _, h => h
  | .primitive _, _ | .instanceOf _, _ | .custom _, _ => trivial
  | .arrayOf _, _ | .objectOf _, _ | .oneOf _, _ => trivial

theorem Schema.Sound.namesDistinct {t : Schema} (h : t.Sound) : t.NamesDistinct where
  kind := h.kind.namesDistinct
  options := fun entry hm => by
    obtain ⟨form, -, ha⟩ := h.options entry hm
    exact OptionForm.namesDistinct_of_accepts ha

theorem Schema.namesDistinct_of_sound {t : Schema} (h : t.All Schema.Sound) :
    t.All Schema.NamesDistinct :=
  h.imp fun _ hu => hu.namesDistinct

/-- Success of a series of checks is success of each. -/
theorem forM_eq_ok {ε α : Type} {f : α → Except ε PUnit} {as : List α} :
    as.forM f = .ok () ↔ ∀ a ∈ as, f a = .ok () := by
  induction as with
  | nil => simp [pure, Except.pure]
  | cons a rest ih =>
    rw [List.forM_eq_forM, List.forM_cons, bind_eq_ok, List.forall_mem_cons,
      ← List.forM_eq_forM, ih]
    exact ⟨fun ⟨_, ha, hrest⟩ => ⟨ha, hrest⟩, fun ⟨ha, hrest⟩ => ⟨(), ha, hrest⟩⟩

namespace Options

theorem mem_addFields {o : Options} {fields : Fields Value} {entry : String × Value}
    (h : entry ∈ (o.addFields fields).entries) : entry ∈ o.entries ∨ entry ∈ fields := by
  induction fields generalizing o with
  | nil => exact Or.inl h
  | cons first rest ih =>
    rcases ih (o := o.add first.1 first.2) h with h | h
    · rcases mem_insertNew h with rfl | h
      · exact Or.inr List.mem_cons_self
      · exact Or.inl h
    · exact Or.inr (List.mem_cons_of_mem _ h)

end Options

namespace Schema

/-! ## Types with parts -/

theorem sound_ofKind {kind : Kind} (h : kind.Sound) : (ofKind kind).Sound :=
  ⟨h, fun _ hm => absurd hm List.not_mem_nil, fun _ _ => rfl⟩

/-- A kind without parts has nothing else to keep. -/
theorem sound_leaf {kind : Kind} (h : kind.Sound) (hparts : kind.parts = []) :
    (ofKind kind).All Sound :=
  all_iff.2 ⟨sound_ofKind h, fun _ hm => absurd (hparts ▸ hm) List.not_mem_nil⟩

theorem sound_shapeOf {fields : Fields Schema} (hd : Fields.Distinct fields)
    (h : ∀ field ∈ fields, field.2.All Sound) : (shapeOf fields).All Sound :=
  all_iff.2 ⟨sound_ofKind hd, Kind.all_shapeOf.2 h⟩

/-- Inferring and resolving make no unsound type out of sound ones. -/
theorem inherited_sound : Inherited Sound where
  primitive := fun _ => sound_ofKind trivial
  instanceOf := fun _ h => sound_ofKind h
  asRequired := fun t hs h => ⟨h.kind, h.options, fun check hk => by
    have hkind : t.kind = .custom check := hk
    simp [supportsRequired, hkind] at hs⟩
  arrayOf := fun _ => sound_ofKind trivial
  union := fun _ hne h => sound_ofKind
    ⟨distinct_ne_nil hne, pairwise_distinct fun t hm => namesDistinct_of_sound (h t hm)⟩
  exactShapeOf := fun _ hd => sound_ofKind hd

/-! ## Adding options -/

theorem accepts_of_checkOption {t : Schema} {option : String} {value : Value}
    (h : t.checkOption option value = .ok ()) :
    ∃ form, t.kind.optionForm? option = some form ∧ form.accepts value = true := by
  unfold checkOption at h
  split at h
  · cases h
  · next form hform =>
    refine ⟨form, hform, ?_⟩
    split at h
    · assumption
    · cases h

theorem sound_withOptions {t u : Schema} {options : Options} (h : t.All Sound)
    (ho : t.withOptions options = .ok u) : u.All Sound := by
  obtain ⟨_, hchecked, hu⟩ := bind_eq_ok.1 ho
  cases Except.ok.inj hu
  rw [all_iff] at h ⊢
  refine ⟨⟨h.1.kind, fun entry hm => ?_, h.1.custom⟩, h.2⟩
  rcases Options.mem_addFields hm with hm | hm
  · exact h.1.options entry hm
  · exact accepts_of_checkOption (forM_eq_ok.1 hchecked entry hm)

end Schema

/-! ## Declarations from scratch -/

namespace Declaration

open Schema

variable {d : Declaration}

/-- A flag that strings have makes a string sound. -/
theorem sound_flagged {option : String}
    (h : (Kind.primitive .string).optionForm? option = some .flag) :
    (flagged option).schema.All Sound := by
  have hparts := (all_iff.1 (inherited_sound.of_primitive .string)).2
  refine all_iff.2 ⟨⟨trivial, fun entry hm => ?_, fun _ _ => rfl⟩, hparts⟩
  have hentry : entry = (option, .bool true) := List.mem_singleton.1 hm
  exact hentry ▸ ⟨.flag, h, rfl⟩

theorem sound_named? {name : String} (h : named? name = some d) : d.schema.All Sound := by
  unfold named? at h
  split at h
  · exact Option.some.inj h ▸ inherited_sound.of_primitive _
  · have hm := Fields.mem_of_get? h
    simp only [List.mem_cons, Prod.mk.injEq, List.not_mem_nil, or_false] at hm
    rcases hm with ⟨-, rfl⟩ | ⟨-, rfl⟩ | ⟨-, rfl⟩ | ⟨-, rfl⟩
    · exact sound_flagged rfl
    · exact sound_flagged rfl
    · exact sound_flagged rfl
    · exact inherited_sound.of_primitive .string

theorem sound_enum? {values : List Value} (hv : Value.ItemsDistinct values)
    (h : enum? values = .ok d) : d.schema.All Sound := by
  unfold enum? at h
  split at h
  · cases h
  · next hne =>
    cases Except.ok.inj h
    exact sound_leaf ⟨by simpa using hne, hv⟩ rfl

theorem sound_instanceOf? {className : String} (h : instanceOf? className = .ok d) :
    d.schema.All Sound :=
  inherited_sound.of_instanceOf? h

theorem sound_custom (check : Check) : (custom check).schema.All Sound :=
  sound_leaf trivial rfl

theorem sound_require? {template : Declaration} (h : d.schema.All Sound)
    (hr : d.require? = some (.ready template) ∨ d.require? = some (.pending template)) :
    template.schema.All Sound := by
  unfold require? at hr
  split at hr
  · next hs =>
    have hrequired := inherited_sound.of_asRequired h hs
    split at hr <;> simp only [Option.some.injEq, Required.ready.injEq, Required.pending.injEq,
      reduceCtorEq, or_false, false_or] at hr <;> exact hr ▸ hrequired
  · simp at hr

end Declaration

/-! ## Types with parts, declared by entries -/

/-- An entry whose declarations have sound types. -/
structure Config.Sound (config : Config) : Prop where
  names : config.NamesDistinct
  declared : ∀ d, config.Declares d → d.schema.All Schema.Sound

namespace Inference

open Schema

variable {inference : Inference}

/-- The type of an entry is sound if the types that stand in the entry are. -/
theorem sound_typeOf {config : Config} {t : Schema} (h : config.Sound)
    (ht : inference.typeOf config = .ok t) : t.All Sound :=
  inherited_sound.of_typeOf inference ⟨h.names, h.declared⟩ ht

/-- A declaration is made from entries: of a type whose parts they give, of the type that one
resolves to, or as one is inferred. -/
inductive Makes (inference : Inference) : List Config → Declaration → Prop
  | arrayOf {config d} (h : inference.arrayOf config = .ok d) : Makes inference [config] d
  | objectOf {config d} (h : inference.objectOf config = .ok d) : Makes inference [config] d
  | oneOf {configs d} (h : inference.oneOf configs = .ok d) : Makes inference configs d
  | shapeOf {config d} (h : inference.shapeOf config = .ok d) : Makes inference [config] d
  | exactShapeOf {config d} (h : inference.exactShapeOf config = .ok d) :
      Makes inference [config] d
  | resolved {config t} (reset : Bool) (h : inference.typeOf config = .ok t) :
      Makes inference [config] ⟨t, none, reset⟩
  | inferred {config d} (h : inference.ofConfig? config = some d) : Makes inference [config] d

theorem sound_recordFields {config : Config} {fields : Fields Schema} (h : config.Sound)
    (hf : inference.recordFields config = .ok fields) :
    Fields.Distinct fields ∧ ∀ field ∈ fields, field.2.All Sound := by
  obtain ⟨t, ht, hf⟩ := bind_eq_ok.1 hf
  obtain ⟨hsound, hparts⟩ := all_iff.1 (sound_typeOf h ht)
  have hkind := hsound.kind
  split at hf
  · next heq =>
    rw [heq] at hkind hparts
    cases Except.ok.inj hf
    exact ⟨hkind, Kind.all_shapeOf.1 hparts⟩
  · next heq =>
    rw [heq] at hkind hparts
    cases Except.ok.inj hf
    exact ⟨hkind, Kind.all_exactShapeOf.1 hparts⟩
  · split at hf
    · cases Except.ok.inj hf
      exact ⟨.nil, by simp⟩
    · cases hf
  · cases hf

theorem sound_of_makes {configs : List Config} {d : Declaration}
    (h : ∀ config ∈ configs, config.Sound) (hd : inference.Makes configs d) :
    d.schema.All Sound := by
  cases hd with
  | arrayOf hd =>
    obtain ⟨t, ht, hd⟩ := bind_eq_ok.1 hd
    cases Except.ok.inj hd
    exact inherited_sound.of_arrayOf (sound_typeOf (h _ List.mem_cons_self) ht)
  | objectOf hd =>
    obtain ⟨t, ht, hd⟩ := bind_eq_ok.1 hd
    cases Except.ok.inj hd
    exact all_iff.2 ⟨sound_ofKind trivial,
      Kind.all_objectOf.2 (sound_typeOf (h _ List.mem_cons_self) ht)⟩
  | oneOf hd =>
    obtain ⟨ts, hts, hd⟩ := bind_eq_ok.1 hd
    obtain ⟨t, ht, hd⟩ := bind_eq_ok.1 hd
    cases Except.ok.inj hd
    refine inherited_sound.of_oneOf? (inherited_sound.of_typesOf inference ?_ hts) ht
    exact fun config hm => ⟨(h config hm).names, (h config hm).declared⟩
  | shapeOf hd =>
    obtain ⟨fields, hfields, hd⟩ := bind_eq_ok.1 hd
    cases Except.ok.inj hd
    obtain ⟨hdistinct, hparts⟩ := sound_recordFields (h _ List.mem_cons_self) hfields
    exact sound_shapeOf hdistinct hparts
  | exactShapeOf hd =>
    obtain ⟨fields, hfields, hd⟩ := bind_eq_ok.1 hd
    cases Except.ok.inj hd
    obtain ⟨hdistinct, hparts⟩ := sound_recordFields (h _ List.mem_cons_self) hfields
    exact inherited_sound.of_exactShapeOf hdistinct hparts
  | resolved reset ht => exact sound_typeOf (h _ List.mem_cons_self) ht
  | inferred hd => exact inherited_sound.of_ofConfig? hd

end Inference

/-! ## Whatever is declared -/

namespace Declaration

/-- The declarations that come about in any number of steps: from scratch, from entries in which
declarations stand that came about before, and by refining one. -/
inductive Obtained : Declaration → Prop
  | named {name d} (h : named? name = some d) : Obtained d
  | enum {values d} (hv : Value.ItemsDistinct values) (h : enum? values = .ok d) : Obtained d
  | instanceOf {className d} (h : instanceOf? className = .ok d) : Obtained d
  | custom (check : Check) : Obtained (custom check)
  | made {inference : Inference} {configs d}
      (names : ∀ config ∈ configs, config.NamesDistinct)
      (declared : ∀ config ∈ configs, ∀ e, config.Declares e → Obtained e)
      (h : inference.Makes configs d) : Obtained d
  | defaultsTo {d} (value : Value) (hd : Obtained d) : Obtained (d.defaultsTo value)
  | required {d template} (hd : Obtained d)
      (h : d.require? = some (.ready template) ∨ d.require? = some (.pending template)) :
      Obtained template
  | withOptions {d e} {options : Options} (hd : Obtained d) (h : d.withOptions options = .ok e) :
      Obtained e

/-- However a declaration is obtained, its type is sound, and so is every type within it. -/
theorem sound_of_obtained {d : Declaration} (h : Obtained d) : ∀ t ∈ d.schema.parts, t.Sound := by
  induction h with
  | named h => exact sound_named? h
  | enum hv h => exact sound_enum? hv h
  | instanceOf h => exact sound_instanceOf? h
  | custom check => exact sound_custom check
  | made names _ h ih =>
    exact Inference.sound_of_makes
      (fun config hm => ⟨names config hm, fun e he => ih config hm e he⟩) h
  | defaultsTo value _ ih => exact ih
  | required _ h ih => exact sound_require? ih h
  | withOptions _ h ih =>
    obtain ⟨t, ht, h⟩ := bind_eq_ok.1 h
    cases Except.ok.inj h
    exact Schema.sound_withOptions ih ht

/-- A test that nothing passes. -/
def never : Check := ⟨"never", 0, fun _ => false⟩

/-- An address, or a list of flags and a page, or what passes a test. Two of the flags are of one
type, and the test is in a shape that is required. -/
def contactEntries : List Config :=
  [.scalar email, .sequence [.literal (.bool true), .scalar url, .literal (.bool false)],
    .shape (.scalar (custom never)) true]

def contact : Declaration :=
  let item := Schema.ofKind (.oneOf [(Schema.primitive .bool).asRequired, url.schema])
  ofSchema (.ofKind (.oneOf
    [email.schema, (Schema.arrayOf item).asRequired, (custom never).schema]))

theorem oneOf_contactEntries : Inference.standard.oneOf contactEntries = .ok contact := by
  have hempty : (∅ : Options).entries = [] := rfl
  simp [contactEntries, contact, Inference.oneOf, Inference.typesOf, Inference.typeOf,
    Inference.typeOfValue, Inference.ofValue?, Inference.sequenceType, Schema.unify,
    Schema.oneOf?, Schema.distinct, Schema.same, Kind.same, bind, Except.bind, pure, Except.pure,
    settled, Schema.primitive, Schema.asRequired, Schema.ofKind, url, flagged, email, ofSchema,
    custom, Schema.supportsRequired, Schema.arrayOf, Options.same, Options.same.go,
    Options.empty, Options.add, Options.insertNew, hempty]

theorem obtained_contact : Obtained contact := by
  refine .made (fun config hm => ?_) (fun config hm d hd => ?_) (.oneOf oneOf_contactEntries)
  · simp only [contactEntries, List.mem_cons, List.not_mem_nil, or_false] at hm
    rcases hm with rfl | rfl | rfl <;> constructor <;>
      simp [Config.entries, Config.itemEntries, Value.NamesDistinct]
  · simp only [contactEntries, List.mem_cons, List.not_mem_nil, or_false] at hm
    rcases hm with rfl | rfl | rfl <;>
      simp only [Config.Declares, Config.entries, Config.itemEntries, List.mem_cons,
        List.mem_append, List.not_mem_nil, or_false, false_or, reduceCtorEq, Config.scalar.injEq]
        at hd <;> subst hd
    · exact .named (show named? "email" = some email from rfl)
    · exact .named (show named? "url" = some url from rfl)
    · exact .custom never

theorem sound_of_obtained_contact :
    Obtained contact ∧ ∀ t ∈ contact.schema.parts, t.Sound :=
  ⟨obtained_contact, sound_of_obtained obtained_contact⟩

end Declaration

end StateTree
