import Mathlib.Data.List.Perm.Basic
import StateTree.Config
import StateTree.Proofs.Store.Extension

/-
  The entries of a configuration, at any depth. `Fits` is what a configuration and a store always
  have in common when a program puts them together: a record names a field once, and a node that
  is built already is there. A record is built in the order `arranged`: its data fields first,
  then its validations.
-/

namespace StateTree.Config

variable {s s' : Store}

/-- Whether an entry declares a validation. -/
def isValidation : Config → Bool
  | .validates _ => true
  | _ => false

theorem isValidation_iff (config : Config) :
    config.isValidation = true ↔ ∃ path, config = .validates path := by
  cases config <;> simp [isValidation]

mutual

/-- An entry and all entries within it. What a literal holds are values and no entries. -/
def entries : Config → List Config
  | .node id => [.node id]
  | .pending template => [.pending template]
  | .scalar d => [.scalar d]
  | .shape inner required => .shape inner required :: entries inner
  | .validates path => [.validates path]
  | .sequence items => .sequence items :: itemEntries items
  | .record fields => .record fields :: fieldEntries fields
  | .literal v => [.literal v]

def itemEntries : List Config → List Config
  | [] => []
  | item :: rest => entries item ++ itemEntries rest

def fieldEntries : List (String × Config) → List Config
  | [] => []
  | (_, child) :: rest => entries child ++ fieldEntries rest

end

theorem entries_subset_itemEntries {items : List Config} {item : Config} (h : item ∈ items) :
    item.entries ⊆ itemEntries items := by
  induction items with
  | nil => simp at h
  | cons first rest ih =>
    rw [itemEntries]
    rcases List.mem_cons.1 h with rfl | h
    · exact List.subset_append_left _ _
    · exact List.Subset.trans (ih h) (List.subset_append_right _ _)

theorem entries_subset_fieldEntries {fields : List (String × Config)} {field : String × Config}
    (h : field ∈ fields) : field.2.entries ⊆ fieldEntries fields := by
  induction fields with
  | nil => simp at h
  | cons first rest ih =>
    rw [fieldEntries]
    rcases List.mem_cons.1 h with rfl | h
    · exact List.subset_append_left _ _
    · exact List.Subset.trans (ih h) (List.subset_append_right _ _)

theorem entries_inner (inner : Config) (required : Bool) :
    inner.entries ⊆ (shape inner required).entries := by
  rw [entries]
  exact List.subset_cons_self _ _

theorem entries_item {items : List Config} {item : Config} (h : item ∈ items) :
    item.entries ⊆ (sequence items).entries := by
  rw [entries]
  exact List.Subset.trans (entries_subset_itemEntries h) (List.subset_cons_self _ _)

theorem entries_field {fields : List (String × Config)} {field : String × Config}
    (h : field ∈ fields) : field.2.entries ⊆ (record fields).entries := by
  rw [entries]
  exact List.Subset.trans (entries_subset_fieldEntries h) (List.subset_cons_self _ _)

theorem record_mem_entries (fields : List (String × Config)) :
    record fields ∈ (record fields).entries := by
  rw [entries]
  exact List.mem_cons_self

/-! ## Configurations that fit a store -/

/-- Records name each field once, and nodes that are built already are there. -/
structure Fits (config : Config) (s : Store) : Prop where
  distinct : ∀ fields, .record fields ∈ config.entries → Fields.Distinct fields
  has : ∀ id, .node id ∈ config.entries → s.Has id

/-- What `Fits` asks of one entry, apart from those within it. -/
def FitsAlone (s : Store) : Config → Prop
  | .record fields => (Fields.names fields).Nodup
  | .node id => (s.node? id).isSome
  | _ => True

instance (s : Store) : (entry : Config) → Decidable (entry.FitsAlone s)
  | .record fields => inferInstanceAs (Decidable (Fields.names fields).Nodup)
  | .node id => inferInstanceAs (Decidable ((s.node? id).isSome = true))
  | .pending _ | .scalar _ | .shape _ _ | .validates _ | .sequence _ | .literal _ => isTrue trivial

theorem fits_iff (config : Config) (s : Store) :
    config.Fits s ↔ ∀ entry ∈ config.entries, entry.FitsAlone s := by
  constructor
  · intro h entry hm
    cases entry with
    | record fields => exact h.distinct fields hm
    | node id => exact h.has id hm
    | _ => trivial
  · intro h
    exact ⟨fun fields hm => h (.record fields) hm, fun id hm => h (.node id) hm⟩

instance (config : Config) (s : Store) : Decidable (config.Fits s) :=
  decidable_of_iff _ (fits_iff config s).symm

theorem Fits.of_subset {config sub : Config} (h : config.Fits s)
    (hs : sub.entries ⊆ config.entries) : sub.Fits s :=
  ⟨fun fields hm => h.distinct fields (hs hm), fun id hm => h.has id (hs hm)⟩

theorem Fits.extend {config : Config} (h : config.Fits s) (he : s.Extends s') : config.Fits s' :=
  ⟨h.distinct, fun id hm => he.has (h.has id hm)⟩

theorem fits_literal (v : Value) (s : Store) : (literal v).Fits s :=
  ⟨fun fields hm => by simp [entries] at hm, fun id hm => by simp [entries] at hm⟩

theorem fits_node {id : NodeId} (h : s.Has id) : (node id).Fits s := by
  refine ⟨fun fields hm => by simp [entries] at hm, fun other hm => ?_⟩
  simp only [entries, List.mem_singleton, node.injEq] at hm
  rw [hm]
  exact h

/-! ## The order of a record -/

def dataFields (fields : List (String × Config)) : Fields Config :=
  fields.filter fun field => !field.2.isValidation

def checkFields (fields : List (String × Config)) : Fields Config :=
  fields.filter fun field => field.2.isValidation

/-- The fields of a record as its composite has them: data first, then validations, each in the
order of declaration. -/
def arranged (fields : List (String × Config)) : Fields Config :=
  dataFields fields ++ checkFields fields

theorem arranged_perm (fields : List (String × Config)) : (arranged fields).Perm fields :=
  List.perm_append_comm.trans
    (List.filter_append_perm (fun field : String × Config => field.2.isValidation) fields)

theorem mem_arranged_iff {fields : List (String × Config)} {field : String × Config} :
    field ∈ arranged fields ↔ field ∈ fields :=
  (arranged_perm fields).mem_iff

theorem distinct_arranged {fields : List (String × Config)} (h : Fields.Distinct fields) :
    (arranged fields).Distinct :=
  ((arranged_perm fields).map Prod.fst).nodup_iff.2 h

/-! ## Entries that spell a literal -/

/-- Whether an entry is a value, a sequence or a record. -/
def isData : Config → Bool
  | .literal _ | .sequence _ | .record _ => true
  | _ => false

mutual

/-- What is made of values, sequences and records only spells a literal. -/
theorem exists_toLiteral? : ∀ {config : Config},
    (∀ entry ∈ config.entries, entry.isData = true) → ∃ v, config.toLiteral? = some v
  | .literal v, _ => ⟨v, by rw [toLiteral?]⟩
  | .sequence items, h => by
    have hitems : ∀ entry ∈ itemEntries items, entry.isData = true := fun entry hm =>
      h entry (by rw [entries]; exact List.mem_cons_of_mem _ hm)
    obtain ⟨vs, hvs⟩ := exists_literalItems? hitems
    exact ⟨.array vs, by rw [toLiteral?, hvs]; rfl⟩
  | .record fields, h => by
    have hfields : ∀ entry ∈ fieldEntries fields, entry.isData = true := fun entry hm =>
      h entry (by rw [entries]; exact List.mem_cons_of_mem _ hm)
    obtain ⟨vs, hvs⟩ := exists_literalFields? hfields
    exact ⟨.object vs, by rw [toLiteral?, hvs]; rfl⟩
  | .node _, h => by simp [entries, isData] at h
  | .pending _, h => by simp [entries, isData] at h
  | .scalar _, h => by simp [entries, isData] at h
  | .shape _ _, h => by simp [entries, isData] at h
  | .validates _, h => by simp [entries, isData] at h

theorem exists_literalItems? : ∀ {items : List Config},
    (∀ entry ∈ itemEntries items, entry.isData = true) → ∃ vs, literalItems? items = some vs
  | [], _ => ⟨[], rfl⟩
  | item :: rest, h => by
    rw [itemEntries] at h
    obtain ⟨v, hv⟩ := exists_toLiteral? fun entry hm => h entry (List.mem_append_left _ hm)
    obtain ⟨vs, hvs⟩ := exists_literalItems? fun entry hm => h entry (List.mem_append_right _ hm)
    exact ⟨v :: vs, by rw [literalItems?, hv, hvs]⟩

theorem exists_literalFields? : ∀ {fields : List (String × Config)},
    (∀ entry ∈ fieldEntries fields, entry.isData = true) → ∃ vs, literalFields? fields = some vs
  | [], _ => ⟨[], rfl⟩
  | (name, entry) :: rest, h => by
    rw [fieldEntries] at h
    obtain ⟨v, hv⟩ := exists_toLiteral? fun entry hm => h entry (List.mem_append_left _ hm)
    obtain ⟨vs, hvs⟩ := exists_literalFields? fun entry hm => h entry (List.mem_append_right _ hm)
    exact ⟨(name, v) :: vs, by rw [literalFields?, hv, hvs]⟩

end

/-- Only values, sequences and records spell a literal. -/
theorem toLiteral?_inv {config : Config} {v : Value} (h : config.toLiteral? = some v) :
    config = .literal v ∨
      (∃ items vs, config = .sequence items ∧ literalItems? items = some vs ∧ v = .array vs) ∨
      ∃ fields vs, config = .record fields ∧ literalFields? fields = some vs ∧ v = .object vs := by
  cases config with
  | literal w =>
    rw [toLiteral?, Option.some.injEq] at h
    exact Or.inl (congrArg literal h)
  | sequence items =>
    rw [toLiteral?] at h
    obtain ⟨vs, hvs, rfl⟩ := Option.map_eq_some_iff.1 h
    exact Or.inr (Or.inl ⟨items, vs, rfl, hvs, rfl⟩)
  | record fields =>
    rw [toLiteral?] at h
    obtain ⟨vs, hvs, rfl⟩ := Option.map_eq_some_iff.1 h
    exact Or.inr (Or.inr ⟨fields, vs, rfl, hvs, rfl⟩)
  | node id => simp [toLiteral?] at h
  | pending template => simp [toLiteral?] at h
  | scalar d => simp [toLiteral?] at h
  | shape inner required => simp [toLiteral?] at h
  | validates path => simp [toLiteral?] at h

theorem literalItems?_literal (vs : List Value) : literalItems? (vs.map .literal) = some vs := by
  induction vs with
  | nil => rfl
  | cons v rest ih => rw [List.map_cons, literalItems?, ih]; rfl

theorem literalFields?_literal (vs : List (String × Value)) :
    literalFields? (vs.map fun v => (v.1, .literal v.2)) = some vs := by
  induction vs with
  | nil => rfl
  | cons v rest ih => rw [List.map_cons, literalFields?, ih]; rfl

theorem forall₂_of_literalItems? {items : List Config} {vs : List Value}
    (h : literalItems? items = some vs) :
    List.Forall₂ (fun item v => item.toLiteral? = some v) items vs := by
  induction items generalizing vs with
  | nil => rw [← Option.some.inj h]; exact .nil
  | cons item rest ih =>
    rw [literalItems?] at h
    split at h
    · next hone hrest => exact Option.some.inj h ▸ .cons hone (ih hrest)
    · simp at h

theorem forall₂_of_literalFields? {fields : List (String × Config)} {vs : List (String × Value)}
    (h : literalFields? fields = some vs) :
    List.Forall₂ (fun field v => field.1 = v.1 ∧ field.2.toLiteral? = some v.2) fields vs := by
  induction fields generalizing vs with
  | nil => rw [← Option.some.inj h]; exact .nil
  | cons field rest ih =>
    obtain ⟨name, entry⟩ := field
    rw [literalFields?] at h
    split at h
    · next hone hrest => exact Option.some.inj h ▸ .cons ⟨rfl, hone⟩ (ih hrest)
    · simp at h

/-- Literals declare no validations. -/
theorem checkFields_of_literalFields? {fields : List (String × Config)}
    {vs : List (String × Value)} (h : literalFields? fields = some vs) :
    checkFields fields = [] := by
  have hall := forall₂_of_literalFields? h
  clear h
  induction hall with
  | nil => rfl
  | @cons field v rest vs hone _ ih =>
    obtain ⟨name, entry⟩ := field
    cases entry with
    | validates path => simp [toLiteral?] at hone
    | _ => exact ih

theorem arranged_of_literalFields? {fields : List (String × Config)}
    {vs : List (String × Value)} (h : literalFields? fields = some vs) :
    arranged fields = fields := by
  have hnone := List.filter_eq_nil_iff.1 (checkFields_of_literalFields? h)
  have hdata : dataFields fields = fields := List.filter_eq_self.2 fun field hm => by
    simpa using hnone field hm
  rw [arranged, hdata, checkFields_of_literalFields? h, List.append_nil]

end StateTree.Config
