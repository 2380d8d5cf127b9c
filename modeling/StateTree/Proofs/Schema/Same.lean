import StateTree.Proofs.Value.Same
import StateTree.Schema.Same

/-
  Equality of types. Where every name stands once in whatever a type is made of, it makes no
  difference which of two types is compared with the other (`Schema.same_comm`), and a type equals
  itself (`Schema.same_self`).
-/

namespace StateTree

/-! ## The types within a type -/

mutual

/-- A type and all types within it. -/
def Schema.parts : Schema → List Schema
  | ⟨kind, required, options⟩ => ⟨kind, required, options⟩ :: Kind.parts kind

/-- All types within a kind. -/
def Kind.parts : Kind → List Schema
  | .arrayOf t => Schema.parts t
  | .objectOf t => Schema.parts t
  | .oneOf candidates => Schema.partsOfList candidates
  | .shapeOf fields => Schema.partsOfFields fields
  | .exactShapeOf fields => Schema.partsOfFields fields
  | .primitive _ | .enum _ | .instanceOf _ | .custom _ => []

def Schema.partsOfList : List Schema → List Schema
  | [] => []
  | t :: rest => Schema.parts t ++ Schema.partsOfList rest

def Schema.partsOfFields : List (String × Schema) → List Schema
  | [] => []
  | (_, t) :: rest => Schema.parts t ++ Schema.partsOfFields rest

end

variable {P Q : Schema → Prop}

/-- The type and all types within it are as `P` says. -/
def Schema.All (P : Schema → Prop) (t : Schema) : Prop := ∀ u ∈ t.parts, P u

/-- All types within the kind are as `P` says. -/
def Kind.All (P : Schema → Prop) (kind : Kind) : Prop := ∀ u ∈ kind.parts, P u

theorem Schema.all_iff {t : Schema} : t.All P ↔ P t ∧ t.kind.All P := by
  obtain ⟨kind, required, options⟩ := t
  rw [Schema.All, Schema.parts, List.forall_mem_cons]
  rfl

theorem Schema.All.imp {t : Schema} (h : t.All P) (hP : ∀ u, P u → Q u) : t.All Q :=
  fun u hm => hP u (h u hm)

theorem Kind.all_arrayOf {t : Schema} : (Kind.arrayOf t).All P ↔ t.All P := by
  rw [Kind.All, Kind.parts]
  rfl

theorem Kind.all_objectOf {t : Schema} : (Kind.objectOf t).All P ↔ t.All P := by
  rw [Kind.All, Kind.parts]
  rfl

theorem Kind.all_oneOf {candidates : List Schema} :
    (Kind.oneOf candidates).All P ↔ ∀ t ∈ candidates, t.All P := by
  rw [Kind.All, Kind.parts]
  induction candidates with
  | nil => simp [Schema.partsOfList]
  | cons t rest ih =>
    rw [Schema.partsOfList, List.forall_mem_append, List.forall_mem_cons, ih]
    rfl

theorem forall_mem_partsOfFields {fields : List (String × Schema)} :
    (∀ u ∈ Schema.partsOfFields fields, P u) ↔ ∀ field ∈ fields, field.2.All P := by
  induction fields with
  | nil => simp [Schema.partsOfFields]
  | cons field rest ih =>
    obtain ⟨name, t⟩ := field
    rw [Schema.partsOfFields, List.forall_mem_append, List.forall_mem_cons, ih]
    rfl

theorem Kind.all_shapeOf {fields : List (String × Schema)} :
    (Kind.shapeOf fields).All P ↔ ∀ field ∈ fields, field.2.All P := by
  rw [Kind.All, Kind.parts, forall_mem_partsOfFields]

theorem Kind.all_exactShapeOf {fields : List (String × Schema)} :
    (Kind.exactShapeOf fields).All P ↔ ∀ field ∈ fields, field.2.All P := by
  rw [Kind.All, Kind.parts, forall_mem_partsOfFields]

/-! ## Swapping sides -/

/-- No two fields of a shape, and of an object among the values, have one name. -/
def Kind.NamesDistinct : Kind → Prop
  | .enum values => Value.ItemsDistinct values
  | .shapeOf fields => Fields.Distinct fields
  | .exactShapeOf fields => Fields.Distinct fields
  | _ => True

structure Schema.NamesDistinct (t : Schema) : Prop where
  kind : t.kind.NamesDistinct
  options : ∀ entry ∈ t.options.entries, entry.2.NamesDistinct

theorem Options.same_comm {a b : Options} (ha : ∀ entry ∈ a.entries, entry.2.NamesDistinct)
    (hb : ∀ entry ∈ b.entries, entry.2.NamesDistinct) : a.same b = b.same a := by
  unfold Options.same
  generalize a.entries = xs at ha
  generalize b.entries = ys at hb
  induction xs generalizing ys with
  | nil => cases ys <;> rfl
  | cons x xs ih =>
    cases ys with
    | nil => rfl
    | cons y ys =>
      rw [List.forall_mem_cons] at ha hb
      have hname : (x.1 == y.1) = (y.1 == x.1) := BEq.comm
      rw [Options.same.go, Options.same.go, hname, Value.same_comm ha.1 hb.1, ih ha.2 ys hb.2]

theorem Check.same_comm (a b : Check) : a.same b = b.same a := by
  have hname : (a.name == b.name) = (b.name == a.name) := BEq.comm
  have htag : (a.tag == b.tag) = (b.tag == a.tag) := BEq.comm
  rw [Check.same, Check.same, hname, htag]

namespace Schema

theorem sameFields_eq_all (fs gs : List (String × Schema)) :
    sameFields fs gs = fs.all fun field => (Fields.get? gs field.1).any field.2.same := by
  induction fs with
  | nil => rw [sameFields, List.all_nil]
  | cons field rest ih =>
    rw [sameFields, ih, List.all_cons]
    cases Fields.get? gs field.1 <;> rfl

theorem sameShape_comm {fs gs : List (String × Schema)} (hf : Fields.Distinct fs)
    (hg : Fields.Distinct gs) (hcomm : ∀ f ∈ fs, ∀ g ∈ gs, f.2.same g.2 = g.2.same f.2) :
    (fs.length == gs.length && sameFields fs gs) =
      (gs.length == fs.length && sameFields gs fs) := by
  rw [sameFields_eq_all, sameFields_eq_all]
  exact Fields.same_comm hf hg hcomm

end Schema

mutual

/-- It makes no difference which of two types is compared with the other. -/
theorem Schema.same_comm : ∀ {t u : Schema}, t.All Schema.NamesDistinct →
    u.All Schema.NamesDistinct → t.same u = u.same t
  | ⟨kind, required, options⟩, ⟨kind', required', options'⟩, ht, hu => by
    rw [Schema.all_iff] at ht hu
    have hrequired : (required == required') = (required' == required) := BEq.comm
    rw [Schema.same, Schema.same, Kind.same_comm ht.1.kind hu.1.kind ht.2 hu.2, hrequired,
      Options.same_comm ht.1.options hu.1.options]

theorem Kind.same_comm : ∀ {k l : Kind}, k.NamesDistinct → l.NamesDistinct →
    k.All Schema.NamesDistinct → l.All Schema.NamesDistinct → k.same l = l.same k
  | .primitive p, l, _, _, _, _ => by
    cases l with
    | primitive q => rw [Kind.same, Kind.same]; exact BEq.comm
    | _ => simp only [Kind.same]
  | .enum xs, l, hk, hl, _, _ => by
    cases l with
    | enum ys => rw [Kind.same, Kind.same]; exact Value.sameItems_comm hk hl
    | _ => simp only [Kind.same]
  | .instanceOf c, l, _, _, _, _ => by
    cases l with
    | instanceOf d => rw [Kind.same, Kind.same]; exact BEq.comm
    | _ => simp only [Kind.same]
  | .custom a, l, _, _, _, _ => by
    cases l with
    | custom b => rw [Kind.same, Kind.same]; exact Check.same_comm a b
    | _ => simp only [Kind.same]
  | .arrayOf t, l, _, _, hk, hl => by
    cases l with
    | arrayOf u =>
      rw [Kind.same, Kind.same]
      exact Schema.same_comm (Kind.all_arrayOf.1 hk) (Kind.all_arrayOf.1 hl)
    | _ => simp only [Kind.same]
  | .objectOf t, l, _, _, hk, hl => by
    cases l with
    | objectOf u =>
      rw [Kind.same, Kind.same]
      exact Schema.same_comm (Kind.all_objectOf.1 hk) (Kind.all_objectOf.1 hl)
    | _ => simp only [Kind.same]
  | .oneOf ts, l, _, _, hk, hl => by
    cases l with
    | oneOf us =>
      rw [Kind.same, Kind.same]
      exact Schema.sameList_comm (Kind.all_oneOf.1 hk) (Kind.all_oneOf.1 hl)
    | _ => simp only [Kind.same]
  | .shapeOf fs, l, hk, hl, hfs, hgs => by
    rw [Kind.all_shapeOf] at hfs
    cases l with
    | shapeOf gs =>
      rw [Kind.all_shapeOf] at hgs
      rw [Kind.same, Kind.same]
      exact Schema.sameShape_comm hk hl fun f hf g hg => Schema.same_comm_of_mem hfs hf (hgs g hg)
    | _ => simp only [Kind.same]
  | .exactShapeOf fs, l, hk, hl, hfs, hgs => by
    rw [Kind.all_exactShapeOf] at hfs
    cases l with
    | exactShapeOf gs =>
      rw [Kind.all_exactShapeOf] at hgs
      rw [Kind.same, Kind.same]
      exact Schema.sameShape_comm hk hl fun f hf g hg => Schema.same_comm_of_mem hfs hf (hgs g hg)
    | _ => simp only [Kind.same]

theorem Schema.sameList_comm : ∀ {ts us : List Schema}, (∀ t ∈ ts, t.All Schema.NamesDistinct) →
    (∀ u ∈ us, u.All Schema.NamesDistinct) → Schema.sameList ts us = Schema.sameList us ts
  | [], us, _, _ => by cases us <;> simp only [Schema.sameList]
  | t :: ts, us, ht, hu => by
    cases us with
    | nil => simp only [Schema.sameList]
    | cons u us =>
      rw [List.forall_mem_cons] at ht hu
      rw [Schema.sameList, Schema.sameList, Schema.same_comm ht.1 hu.1,
        Schema.sameList_comm ht.2 hu.2]

theorem Schema.same_comm_of_mem : ∀ {fs : List (String × Schema)},
    (∀ field ∈ fs, field.2.All Schema.NamesDistinct) → ∀ {field : String × Schema}, field ∈ fs →
      ∀ {u : Schema}, u.All Schema.NamesDistinct → field.2.same u = u.same field.2
  | [], _, field, hm, _, _ => by simp at hm
  | (name, t) :: rest, h, field, hm, u, hu => by
    rw [List.forall_mem_cons] at h
    rcases List.mem_cons.1 hm with rfl | hm
    · exact Schema.same_comm h.1 hu
    · exact Schema.same_comm_of_mem h.2 hm hu

end

/-! ## A type and itself -/

theorem Options.same_self {a : Options} (h : ∀ entry ∈ a.entries, entry.2.NamesDistinct) :
    a.same a = true := by
  unfold Options.same
  generalize a.entries = xs at h
  induction xs with
  | nil => rfl
  | cons x xs ih =>
    rw [List.forall_mem_cons] at h
    rw [Options.same.go, Value.same_self h.1, ih h.2, BEq.rfl, Bool.and_self, Bool.and_self]

theorem Check.same_self (a : Check) : a.same a = true := by
  rw [Check.same, BEq.rfl, BEq.rfl, Bool.and_self]

theorem Schema.sameShape_self {fs : List (String × Schema)} (hd : Fields.Distinct fs)
    (h : ∀ f ∈ fs, f.2.same f.2 = true) : (fs.length == fs.length && sameFields fs fs) = true := by
  rw [sameFields_eq_all]
  exact Fields.same_self hd h

mutual

/-- A type equals itself. -/
theorem Schema.same_self : ∀ {t : Schema}, t.All Schema.NamesDistinct → t.same t = true
  | ⟨kind, required, options⟩, h => by
    rw [Schema.all_iff] at h
    rw [Schema.same, Kind.same_self h.1.kind h.2, Options.same_self h.1.options, BEq.rfl,
      Bool.and_self, Bool.and_self]

theorem Kind.same_self : ∀ {k : Kind}, k.NamesDistinct → k.All Schema.NamesDistinct →
    k.same k = true
  | .primitive p, _, _ => by rw [Kind.same]; exact beq_self_eq_true p
  | .enum xs, h, _ => by rw [Kind.same]; exact Value.sameItems_self h
  | .instanceOf c, _, _ => by rw [Kind.same]; exact beq_self_eq_true c
  | .custom a, _, _ => by rw [Kind.same]; exact Check.same_self a
  | .arrayOf t, _, h => by rw [Kind.same]; exact Schema.same_self (Kind.all_arrayOf.1 h)
  | .objectOf t, _, h => by rw [Kind.same]; exact Schema.same_self (Kind.all_objectOf.1 h)
  | .oneOf ts, _, h => by rw [Kind.same]; exact Schema.sameList_self (Kind.all_oneOf.1 h)
  | .shapeOf fs, hd, h => by
    rw [Kind.all_shapeOf] at h
    rw [Kind.same]
    exact Schema.sameShape_self hd (Schema.same_self_of_mem h)
  | .exactShapeOf fs, hd, h => by
    rw [Kind.all_exactShapeOf] at h
    rw [Kind.same]
    exact Schema.sameShape_self hd (Schema.same_self_of_mem h)

theorem Schema.sameList_self : ∀ {ts : List Schema}, (∀ t ∈ ts, t.All Schema.NamesDistinct) →
    Schema.sameList ts ts = true
  | [], _ => by rw [Schema.sameList]
  | t :: ts, h => by
    rw [List.forall_mem_cons] at h
    rw [Schema.sameList, Schema.same_self h.1, Schema.sameList_self h.2, Bool.and_self]

theorem Schema.same_self_of_mem : ∀ {fs : List (String × Schema)},
    (∀ field ∈ fs, field.2.All Schema.NamesDistinct) → ∀ field ∈ fs,
      field.2.same field.2 = true
  | [], _, field, hm => by simp at hm
  | (name, t) :: rest, h, field, hm => by
    rw [List.forall_mem_cons] at h
    rcases List.mem_cons.1 hm with rfl | hm
    · exact Schema.same_self h.1
    · exact Schema.same_self_of_mem h.2 field hm

end

end StateTree
