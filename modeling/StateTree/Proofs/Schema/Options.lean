import Mathlib.Data.List.Nodup
import StateTree.Proofs.Schema.Sound
import StateTree.Proofs.Text

/-
  Adding options to a type. Options are sets of named values, so what counts is which value a name
  has (`Options.ext_get?`), and to extend them is associative. Main statement: options are added
  exactly if the type accepts every one of them, also those that it has a value for already;
  otherwise the first name in the order of bytes that it does not accept is reported. So adding the
  same options again changes nothing, and adding twice is adding once (`withOptions_spec`).
-/

namespace StateTree

/-! ## Options by name -/

namespace Options

variable {a b : Options} {name : String} {value : Value}

theorem distinct_entries (o : Options) : Fields.Distinct o.entries :=
  List.pairwise_map.2 (o.sorted.imp fun {x y} hlt e => by
    rw [e] at hlt
    exact String.lt_irrefl _ hlt)

theorem nodup_entries (o : Options) : o.entries.Nodup := o.distinct_entries.of_map _

theorem get?_eq_some_iff {o : Options} : o.get? name = some value ↔ (name, value) ∈ o.entries :=
  ⟨Fields.mem_of_get?, Fields.get?_of_mem o.distinct_entries⟩

/-- Options that give every name the same value are the same. -/
theorem ext_get? (h : ∀ name, a.get? name = b.get? name) : a = b := by
  have hperm : a.entries.Perm b.entries :=
    (List.perm_ext_iff_of_nodup a.nodup_entries b.nodup_entries).2 fun ⟨name, value⟩ => by
      rw [← get?_eq_some_iff, ← get?_eq_some_iff, h]
  have hentries : a.entries = b.entries := hperm.eq_of_pairwise
    (fun x y _ _ hxy hyx => absurd (String.lt_trans hxy hyx) (String.lt_irrefl _)) a.sorted b.sorted
  obtain ⟨entries, sorted⟩ := a
  obtain ⟨entries', sorted'⟩ := b
  cases hentries
  rfl

theorem extend_assoc (a b c : Options) : (a.extend b).extend c = a.extend (b.extend c) :=
  ext_get? fun name => by simp only [get?_extend, Option.or_assoc]

theorem extend_self (o : Options) : o.extend o = o :=
  ext_get? fun name => by rw [get?_extend, Option.or_self]

end Options

/-! ## The first failure in a series of checks -/

theorem forM_eq_error {ε α : Type} {f : α → Except ε PUnit} {as : List α} {e : ε} :
    as.forM f = .error e ↔
      ∃ front a back, as = front ++ a :: back ∧ (∀ b ∈ front, f b = .ok ()) ∧ f a = .error e := by
  constructor
  · intro h
    induction as with
    | nil => simp [pure, Except.pure] at h
    | cons a rest ih =>
      rw [List.forM_eq_forM, List.forM_cons] at h
      cases ha : f a with
      | error e' =>
        rw [ha] at h
        exact ⟨[], a, rest, rfl, by simp, by rw [ha, Except.error.inj h]⟩
      | ok _ =>
        rw [ha] at h
        obtain ⟨front, b, back, rfl, hfront, hb⟩ := ih h
        exact ⟨a :: front, b, back, rfl, List.forall_mem_cons.2 ⟨ha, hfront⟩, hb⟩
  · rintro ⟨front, a, back, rfl, hfront, ha⟩
    induction front with
    | nil =>
      rw [List.nil_append, List.forM_eq_forM, List.forM_cons, ha]
      rfl
    | cons b front ih =>
      rw [List.forall_mem_cons] at hfront
      rw [List.cons_append, List.forM_eq_forM, List.forM_cons, hfront.1]
      exact ih hfront.2

namespace Schema

variable {t u : Schema} {a b o : Options} {name : String} {value : Value} {e : Error}

/-! ## One option -/

/-- The kind has the option, and the value is of the form that the option takes. -/
def Accepts (t : Schema) (name : String) (value : Value) : Prop :=
  ∃ form, t.kind.optionForm? name = some form ∧ form.accepts value = true

/-- Why an option is not accepted: the kind does not have it, or the value is of another form. -/
inductive Refuses (t : Schema) (name : String) (value : Value) : Error → Prop
  | unsupported (h : t.kind.optionForm? name = none) :
      Refuses t name value (.unsupportedOption name t.kind.name)
  | invalid {form : OptionForm} (h : t.kind.optionForm? name = some form)
      (hv : form.accepts value = false) : Refuses t name value (.invalidOptionValue name form)

theorem checkOption_eq_ok_iff : t.checkOption name value = .ok () ↔ t.Accepts name value := by
  refine ⟨accepts_of_checkOption, fun ⟨form, hform, hv⟩ => ?_⟩
  simp only [checkOption, hform, hv, if_true]

theorem checkOption_eq_error_iff :
    t.checkOption name value = .error e ↔ t.Refuses name value e := by
  constructor
  · intro h
    unfold checkOption at h
    split at h
    · next hnone => exact Except.error.inj h ▸ .unsupported hnone
    · next form hform =>
      split at h
      · cases h
      · next hv => exact Except.error.inj h ▸ .invalid hform (Bool.eq_false_iff.2 hv)
  · intro h
    cases h with
    | unsupported h => simp only [checkOption, h]
    | invalid h hv => simp only [checkOption, h, hv, if_neg Bool.false_ne_true]

/-! ## All options -/

/-- Every option is accepted. -/
def AcceptsAll (t : Schema) (o : Options) : Prop :=
  ∀ name value, o.get? name = some value → t.Accepts name value

/-- The error tells why an option is not accepted, and all options that come before it are. -/
def RefusesFirst (t : Schema) (o : Options) (e : Error) : Prop :=
  ∃ name value, o.get? name = some value ∧ t.Refuses name value e ∧
    ∀ other value', o.get? other = some value' → ¬ t.Accepts other value' →
      Text.bytes name ≤ Text.bytes other

/-- What a type becomes when options are added: it gets a value for every name that it had none
for, and nothing else changes. -/
structure Extended (t : Schema) (o : Options) (u : Schema) : Prop where
  kind_eq : u.kind = t.kind
  required_eq : u.required = t.required
  get?_options : ∀ name, u.options.get? name = (t.options.get? name).or (o.get? name)

theorem extended_iff : t.Extended o u ↔ u = { t with options := t.options.extend o } := by
  constructor
  · rintro ⟨hkind, hrequired, hoptions⟩
    have hall : u.options = t.options.extend o := Options.ext_get? fun name => by
      rw [hoptions, Options.get?_extend]
    obtain ⟨kind, required, options⟩ := u
    cases hkind
    cases hrequired
    rw [← hall]
  · rintro rfl
    exact ⟨rfl, rfl, Options.get?_extend t.options o⟩

theorem forM_checkOption_eq_ok_iff :
    (o.entries.forM fun entry => t.checkOption entry.1 entry.2) = .ok () ↔ t.AcceptsAll o := by
  rw [forM_eq_ok]
  constructor
  · intro h name value hget
    exact checkOption_eq_ok_iff.1 (h (name, value) (Options.get?_eq_some_iff.1 hget))
  · rintro h ⟨name, value⟩ hm
    exact checkOption_eq_ok_iff.2 (h name value (Options.get?_eq_some_iff.2 hm))

theorem forM_checkOption_eq_error_iff :
    (o.entries.forM fun entry => t.checkOption entry.1 entry.2) = .error e ↔
      t.RefusesFirst o e := by
  rw [forM_eq_error]
  constructor
  · rintro ⟨front, ⟨name, value⟩, back, hentries, hfront, hone⟩
    have hsorted := o.sorted
    rw [hentries, List.pairwise_append, List.pairwise_cons] at hsorted
    refine ⟨name, value, ?_, checkOption_eq_error_iff.1 hone, fun other value' hget hother => ?_⟩
    · rw [Options.get?_eq_some_iff, hentries]
      exact List.mem_append_right _ List.mem_cons_self
    · -- What comes before it is accepted, so the other one is the same or comes after it.
      rw [Options.get?_eq_some_iff, hentries, List.mem_append, List.mem_cons] at hget
      rcases hget with hm | e | hm
      · exact absurd (checkOption_eq_ok_iff.1 (hfront _ hm)) hother
      · cases e
        exact List.le_refl _
      · exact Text.bytes_le_of_le (Std.le_of_lt (hsorted.2.1.1 _ hm))
  · rintro ⟨name, value, hget, hrefuses, hfirst⟩
    obtain ⟨front, back, hentries⟩ := List.append_of_mem (Options.get?_eq_some_iff.1 hget)
    have hsorted := o.sorted
    rw [hentries, List.pairwise_append] at hsorted
    refine ⟨front, (name, value), back, hentries, fun ⟨other, value'⟩ hm => ?_,
      checkOption_eq_error_iff.2 hrefuses⟩
    have hlt : other < name := hsorted.2.2 _ hm _ List.mem_cons_self
    rw [checkOption_eq_ok_iff]
    by_contra hother
    have hle := hfirst other value' (by
      rw [Options.get?_eq_some_iff, hentries]
      exact List.mem_append_left _ hm) hother
    exact absurd (Text.bytes_lt_iff.2 hlt) (List.not_lt.2 hle)

theorem withOptions_eq_ok_iff : t.withOptions o = .ok u ↔ t.AcceptsAll o ∧ t.Extended o u := by
  rw [← forM_checkOption_eq_ok_iff, extended_iff, withOptions, bind_eq_ok]
  exact ⟨fun ⟨_, hchecked, hu⟩ => ⟨hchecked, (Except.ok.inj hu).symm⟩,
    fun ⟨hchecked, hu⟩ => ⟨(), hchecked, congrArg Except.ok hu.symm⟩⟩

theorem withOptions_eq_error_iff : t.withOptions o = .error e ↔ t.RefusesFirst o e := by
  rw [← forM_checkOption_eq_error_iff, withOptions]
  cases o.entries.forM fun entry => t.checkOption entry.1 entry.2 with
  | error e' => simp [bind, Except.bind]
  | ok _ => simp [bind, Except.bind, pure, Except.pure]

theorem withOptions_of_acceptsAll (h : t.AcceptsAll o) :
    t.withOptions o = .ok { t with options := t.options.extend o } :=
  withOptions_eq_ok_iff.2 ⟨h, extended_iff.2 rfl⟩

theorem exists_withOptions_iff : (∃ u, t.withOptions o = .ok u) ↔ t.AcceptsAll o :=
  ⟨fun ⟨_, h⟩ => (withOptions_eq_ok_iff.1 h).1, fun h => ⟨_, withOptions_of_acceptsAll h⟩⟩

/-- The flag has no part in it. -/
theorem withOptions_flag (t : Schema) (o : Options) (flag : Bool) :
    ({ t with required := flag } : Schema).withOptions o =
      (t.withOptions o).map fun u => { u with required := flag } := by
  have hcheck : ∀ name value,
      ({ t with required := flag } : Schema).checkOption name value = t.checkOption name value :=
    fun _ _ => rfl
  unfold withOptions
  simp only [hcheck]
  cases o.entries.forM fun entry => t.checkOption entry.1 entry.2 <;> rfl

/-! ## Adding options twice -/

theorem AcceptsAll.extend (ha : t.AcceptsAll a) (hb : t.AcceptsAll b) :
    t.AcceptsAll (a.extend b) := fun name value hget => by
  rw [Options.get?_extend, Option.or_eq_some_iff] at hget
  rcases hget with hget | ⟨-, hget⟩
  · exact ha name value hget
  · exact hb name value hget

theorem withOptions_withOptions (ha : t.AcceptsAll a) (hb : t.AcceptsAll b) :
    (t.withOptions a >>= (·.withOptions b)) = t.withOptions (a.extend b) := by
  -- The kind decides what is accepted, and it is the same after the first options are added.
  have hb' : ({ t with options := t.options.extend a } : Schema).AcceptsAll b := hb
  rw [withOptions_of_acceptsAll ha, withOptions_of_acceptsAll (ha.extend hb),
    ← Options.extend_assoc]
  exact withOptions_of_acceptsAll hb'

theorem withOptions_again (t : Schema) (o : Options) :
    (t.withOptions o >>= (·.withOptions o)) = t.withOptions o := by
  cases h : t.withOptions o with
  | error e => rfl
  | ok u =>
    have ha := (withOptions_eq_ok_iff.1 h).1
    rw [← h, withOptions_withOptions ha ha, Options.extend_self]

/-- Options are added exactly if every one of them is accepted, and then each name has the value
that it had before, or else the new one. Otherwise the first option in the order of bytes that is
not accepted is reported. Adding them again changes nothing, the flag has no part in it, and options
added one after the other are options added together. -/
theorem withOptions_spec (t : Schema) (o : Options) :
    ((∃ u, t.withOptions o = .ok u) ↔ t.AcceptsAll o) ∧
    (∀ u, t.withOptions o = .ok u ↔ t.AcceptsAll o ∧ t.Extended o u) ∧
    (∀ e, t.withOptions o = .error e ↔ t.RefusesFirst o e) ∧
    (t.withOptions o >>= (·.withOptions o)) = t.withOptions o ∧
    t.asRequired.withOptions o = (t.withOptions o).map asRequired ∧
    t.asOptional.withOptions o = (t.withOptions o).map asOptional ∧
    ∀ more, t.AcceptsAll o → t.AcceptsAll more →
      (∃ u, t.withOptions (o.extend more) = .ok u) ∧
      (t.withOptions o >>= (·.withOptions more)) = t.withOptions (o.extend more) :=
  ⟨exists_withOptions_iff, fun _ => withOptions_eq_ok_iff, fun _ => withOptions_eq_error_iff,
    withOptions_again t o, withOptions_flag t o true, withOptions_flag t o false,
    fun _ ho hmore => ⟨exists_withOptions_iff.2 (ho.extend hmore),
      withOptions_withOptions ho hmore⟩⟩

/-- An array of at least one item. -/
def rowsSchema : Schema :=
  { arrayOf (primitive .any) with options := .ofFields [("minItems", .number (.int 1))] }

/-- A whole number is a count, also as a floating-point number. -/
def twoRows : Options :=
  .ofFields [("minItems", .number (.float (Binary64.ofInt 2))), ("description", .string "rows")]

def fewRows : Options :=
  .ofFields [("maxItems", .number (.int 3)), ("description", .string "few rows")]

/-- Two counts that are none, and an option that arrays do not have. -/
def faultyRows : Options :=
  .ofFields [("pattern", .string "x"), ("minItems", .null), ("maxItems", .number (.int (-1)))]

theorem withOptions_rows :
    rowsSchema.AcceptsAll twoRows ∧ rowsSchema.AcceptsAll fewRows ∧
      (rowsSchema.withOptions twoRows >>= (·.withOptions fewRows)) =
        rowsSchema.withOptions (twoRows.extend fewRows) ∧
      (twoRows.extend fewRows).get? "description" = some (.string "rows") ∧
      rowsSchema.RefusesFirst faultyRows (.invalidOptionValue "maxItems" .count) := by
  have hcount : OptionForm.count.accepts (.number (.float (Binary64.ofInt 2))) = true := by
    decide +kernel
  have htwo : rowsSchema.AcceptsAll twoRows := fun name value hget => by
    have hm : (name, value) ∈ [("description", .string "rows"),
        ("minItems", .number (.float (Binary64.ofInt 2)))] := Options.get?_eq_some_iff.1 hget
    simp only [List.mem_cons, Prod.mk.injEq, List.not_mem_nil, or_false] at hm
    rcases hm with ⟨rfl, rfl⟩ | ⟨rfl, rfl⟩
    · exact ⟨.text, rfl, rfl⟩
    · exact ⟨.count, rfl, hcount⟩
  have hfew : rowsSchema.AcceptsAll fewRows := (withOptions_spec rowsSchema fewRows).1.1 ⟨_, rfl⟩
  obtain ⟨-, -, -, -, -, -, htwice⟩ := withOptions_spec rowsSchema twoRows
  obtain ⟨-, -, hrefused, -⟩ := withOptions_spec rowsSchema faultyRows
  exact ⟨htwo, hfew, (htwice fewRows htwo hfew).2, rfl, (hrefused _).1 rfl⟩

end Schema

end StateTree
