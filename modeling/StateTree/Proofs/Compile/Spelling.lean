import StateTree.Proofs.Compile.Literal
import StateTree.Typing

/-
  Two spellings of one literal. Data can be written as one value, or as sequences and records of
  entries down to values at any depth. Main statement: as long as no array and no object without a
  class is an element, both spellings are inferred alike, have one type and are compiled to trees
  that agree in everything but the identities of their nodes (`compile_spelling`).
-/

namespace StateTree

namespace Store

/-- Two nodes are alike if they and all nodes below them agree in kind, in the names and the order
of their fields, and in all that their scalars hold: declaration and value. Identities do not
count. No validation is alike to another, for it refers to an identity. -/
inductive Alike (s s' : Store) : NodeId → NodeId → Prop
  | scalar {id id' : NodeId} {slot : Slot} (hn : s.node? id = some (.scalar slot))
      (hn' : s'.node? id' = some (.scalar slot)) : Alike s s' id id'
  | list {id id' : NodeId} {ids ids' : List NodeId} (hn : s.node? id = some (.list ids))
      (hn' : s'.node? id' = some (.list ids')) (hlen : ids.length = ids'.length)
      (hi : ∀ p ∈ ids.zip ids', Alike s s' p.1 p.2) : Alike s s' id id'
  | composite {id id' : NodeId} {fields fields' : Fields NodeId}
      (hn : s.node? id = some (.composite fields)) (hn' : s'.node? id' = some (.composite fields'))
      (hnames : fields.names = fields'.names)
      (hi : ∀ p ∈ fields.zip fields', Alike s s' p.1.2 p.2.2) : Alike s s' id id'

variable {s s' : Store} {id id' : NodeId}

theorem alike_of_items {ids ids' : List NodeId} (hn : s.node? id = some (.list ids))
    (hn' : s'.node? id' = some (.list ids')) (h : List.Forall₂ (Alike s s') ids ids') :
    Alike s s' id id' := by
  obtain ⟨hlen, hi⟩ := List.forall₂_iff_zip.1 h
  exact .list hn hn' hlen fun p hp => hi hp

theorem alike_of_fields {fields fields' : Fields NodeId}
    (hn : s.node? id = some (.composite fields)) (hn' : s'.node? id' = some (.composite fields'))
    (h : List.Forall₂ (fun field field' => field.1 = field'.1 ∧ Alike s s' field.2 field'.2)
      fields fields') : Alike s s' id id' := by
  have hnames : fields.names = fields'.names :=
    List.forall₂_eq_eq_eq ▸ List.forall₂_map_left_iff.2
      (List.forall₂_map_right_iff.2 (h.imp fun _ _ hone => hone.1))
  exact .composite hn hn' hnames fun p hp => ((List.forall₂_iff_zip.1 h).2 hp).2

end Store

/-! ## Inference and types -/

namespace Inference

open Config

variable {inference : Inference} {config : Config} {v : Value}

/-- Both spellings are inferred alike. -/
theorem ofConfig?_of_toLiteral? (harray : ∀ items, inference.isElement (.array items) = false)
    (hobject : ∀ fields, inference.isElement (.object fields) = false)
    (h : config.toLiteral? = some v) : inference.ofConfig? config = inference.ofValue? v := by
  have hinv := toLiteral?_inv h
  rcases hinv with rfl | ⟨items, vs, rfl, hvs, rfl⟩ | ⟨fields, vs, rfl, hvs, rfl⟩
  · rfl
  · rw [ofConfig?, h, ofValue?, harray]
    rfl
  · rw [ofValue?, hobject]
    cases forall₂_of_literalFields? hvs with
    | nil => rfl
    | cons _ _ => rfl

mutual

/-- Both spellings have one type. -/
theorem typeOf_of_toLiteral? (harray : ∀ items, inference.isElement (.array items) = false)
    (hobject : ∀ fields, inference.isElement (.object fields) = false) :
    ∀ {config : Config} {v : Value}, config.toLiteral? = some v →
      inference.typeOf config = inference.typeOfValue v
  | .literal w, v, h => by
    rw [toLiteral?, Option.some.injEq] at h
    rw [typeOf, h]
  | .sequence items, v, h => by
    rw [toLiteral?] at h
    obtain ⟨vs, hvs, rfl⟩ := Option.map_eq_some_iff.1 h
    rw [typeOf, typesOf_of_literalItems? harray hobject hvs, typeOfValue]
  | .record fields, v, h => by
    have hinfer := ofConfig?_of_toLiteral? harray hobject h
    rw [toLiteral?] at h
    obtain ⟨vs, hvs, rfl⟩ := Option.map_eq_some_iff.1 h
    rw [typeOf, typeOfValue, hinfer]
    cases inference.ofValue? (.object vs) with
    | some d => rfl
    | none => rw [fieldTypesOf_of_literalFields? harray hobject hvs]
  | .node _, _, h => by simp [toLiteral?] at h
  | .pending _, _, h => by simp [toLiteral?] at h
  | .scalar _, _, h => by simp [toLiteral?] at h
  | .shape _ _, _, h => by simp [toLiteral?] at h
  | .validates _, _, h => by simp [toLiteral?] at h

theorem typesOf_of_literalItems? (harray : ∀ items, inference.isElement (.array items) = false)
    (hobject : ∀ fields, inference.isElement (.object fields) = false) :
    ∀ {items : List Config} {vs : List Value}, literalItems? items = some vs →
      inference.typesOf items = inference.typesOfItems vs
  | [], _, h => by
    rw [← Option.some.inj h, typesOf, typesOfItems]
  | item :: rest, _, h => by
    rw [literalItems?] at h
    split at h
    · next hone hrest =>
      rw [← Option.some.inj h, typesOf, typesOfItems, typeOf_of_toLiteral? harray hobject hone,
        typesOf_of_literalItems? harray hobject hrest]
    · simp at h

theorem fieldTypesOf_of_literalFields?
    (harray : ∀ items, inference.isElement (.array items) = false)
    (hobject : ∀ fields, inference.isElement (.object fields) = false) :
    ∀ {fields : List (String × Config)} {vs : List (String × Value)},
      literalFields? fields = some vs →
        inference.fieldTypesOf fields = inference.typesOfFields vs
  | [], _, h => by
    rw [← Option.some.inj h, fieldTypesOf, typesOfFields]
  | (name, entry) :: rest, _, h => by
    rw [literalFields?] at h
    split at h
    · next hone hrest =>
      rw [← Option.some.inj h, fieldTypesOf, typesOfFields,
        typeOf_of_toLiteral? harray hobject hone,
        fieldTypesOf_of_literalFields? harray hobject hrest]
    · simp at h

end

end Inference

/-! ## Compiling -/

namespace Compiler

open Config Store

variable {c : Compiler} {s s' : Store} {config : Config} {id id' : NodeId} {v : Value}

/-- Both spellings are sequences, or neither is, and so for empty records. -/
theorem isSequence_of_toLiteral? (h : config.toLiteral? = some v) :
    config.isSequence = (Config.literal v).isSequence ∧
      config.isEmptyRecord = (Config.literal v).isEmptyRecord := by
  have hinv := toLiteral?_inv h
  rcases hinv with rfl | ⟨items, vs, rfl, hvs, rfl⟩ | ⟨fields, vs, rfl, hvs, rfl⟩
  · exact ⟨rfl, rfl⟩
  · exact ⟨rfl, rfl⟩
  · cases forall₂_of_literalFields? hvs with
    | nil => exact ⟨rfl, rfl⟩
    | cons _ _ => exact ⟨rfl, rfl⟩

/-- Both spellings are settled as the same scalar, or both are taken apart. -/
theorem scalarOf?_of_toLiteral? (harray : ∀ items, c.isElement (.array items) = false)
    (hobject : ∀ fields, c.isElement (.object fields) = false)
    (h : config.toLiteral? = some v) : c.scalarOf? config = c.scalarOfValue? v := by
  have hinfer : c.inference.ofConfig? config = c.inference.ofConfig? (.literal v) :=
    Inference.ofConfig?_of_toLiteral? harray hobject h
  obtain ⟨hsequence, hempty⟩ := isSequence_of_toLiteral? h
  rw [← scalarOf?_literal, scalarOf?, scalarOf?, hsequence, hempty, hinfer]

mutual

/-- Both spellings are built in the same way. -/
theorem build_of_toLiteral? (harray : ∀ items, c.isElement (.array items) = false)
    (hobject : ∀ fields, c.isElement (.object fields) = false) :
    ∀ {config : Config} {v : Value}, config.toLiteral? = some v →
      ∀ (path : Path) (s : Store), c.build config path s = .ok (c.place v s)
  | .literal w, v, h, path, s => by
    rw [toLiteral?, Option.some.injEq] at h
    rw [build, h]
  | .sequence items, v, h, path, s => by
    have hscalar := scalarOf?_of_toLiteral? harray hobject h
    rw [toLiteral?] at h
    obtain ⟨vs, hvs, rfl⟩ := Option.map_eq_some_iff.1 h
    rw [build, place, hscalar]
    cases c.scalarOfValue? (.array vs) with
    | some d => rfl
    | none =>
      simp only [buildItems_of_literalItems? harray hobject hvs]
      rfl
  | .record fields, v, h, path, s => by
    have hscalar := scalarOf?_of_toLiteral? harray hobject h
    rw [toLiteral?] at h
    obtain ⟨vs, hvs, rfl⟩ := Option.map_eq_some_iff.1 h
    have hchecks := validations_of_literalFields? hvs
    rw [build, place, hscalar]
    cases c.scalarOfValue? (.object vs) with
    | some d => rfl
    | none =>
      simp only [buildFields_of_literalFields? harray hobject hvs, hchecks]
      rfl
  | .node _, _, h, _, _ => by simp [toLiteral?] at h
  | .pending _, _, h, _, _ => by simp [toLiteral?] at h
  | .scalar _, _, h, _, _ => by simp [toLiteral?] at h
  | .shape _ _, _, h, _, _ => by simp [toLiteral?] at h
  | .validates _, _, h, _, _ => by simp [toLiteral?] at h

theorem buildItems_of_literalItems? (harray : ∀ items, c.isElement (.array items) = false)
    (hobject : ∀ fields, c.isElement (.object fields) = false) :
    ∀ {items : List Config} {vs : List Value}, literalItems? items = some vs →
      ∀ (path : Path) (index : Nat) (s : Store),
        c.buildItems items path index s = .ok (c.placeItems vs s)
  | [], _, h, _, _, _ => by
    rw [← Option.some.inj h, buildItems, placeItems]
  | item :: rest, _, h, path, index, s => by
    rw [literalItems?] at h
    split at h
    · next hone hrest =>
      rw [← Option.some.inj h, buildItems, placeItems, build_of_toLiteral? harray hobject hone]
      simp only [bind, Except.bind, buildItems_of_literalItems? harray hobject hrest]
      rfl
    · simp at h

theorem buildFields_of_literalFields? (harray : ∀ items, c.isElement (.array items) = false)
    (hobject : ∀ fields, c.isElement (.object fields) = false) :
    ∀ {fields : List (String × Config)} {vs : List (String × Value)},
      literalFields? fields = some vs → ∀ (path : Path) (s : Store),
        c.buildFields fields path s = .ok (c.placeFields vs s)
  | [], _, h, _, _ => by
    rw [← Option.some.inj h, buildFields, placeFields]
  | (name, entry) :: rest, _, h, path, s => by
    rw [literalFields?] at h
    split at h
    · next hone hrest =>
      have hdata : entry.isValidation = false := by
        cases entry with
        | validates path => simp [toLiteral?] at hone
        | _ => rfl
      rw [← Option.some.inj h, buildFields_cons c name hdata, placeFields,
        build_of_toLiteral? harray hobject hone]
      simp only [bind, Except.bind, buildFields_of_literalFields? harray hobject hrest]
      rfl
    · simp at h

end

/-- Nodes that stand for one literal are alike, in whichever stores they are. -/
theorem Stands.alike (h : Stands c s config id) (h' : Stands c s' config id')
    (hv : config.toLiteral? = some v) : Alike s s' id id' := by
  induction config using c.layout_induction generalizing id id' v with
  | step config ih =>
    rcases c.layout_of_toLiteral? hv with
      ⟨d, hl, -⟩ | ⟨items, vs, hl, hvs, -⟩ | ⟨fields, vs, hl, hvs, -⟩
    · exact .scalar (h.scalar_inv hl) (h'.scalar_inv hl)
    · rw [hl] at ih
      obtain ⟨ids, hn, hstands⟩ := h.items hl
      obtain ⟨ids', hn', hstands'⟩ := h'.items hl
      refine alike_of_items hn hn' (forall₂_of_forall₂ hstands hstands' ?_)
      intro item hm id id' hone hone'
      obtain ⟨v, hv⟩ := exists_of_forall₂ (forall₂_of_literalItems? hvs) hm
      exact ih item hm hone hone' hv
    · rw [hl] at ih
      obtain ⟨nodes, hn, hstands⟩ := h.fields hl
      obtain ⟨nodes', hn', hstands'⟩ := h'.fields hl
      rw [arranged_of_literalFields? hvs] at hstands hstands'
      refine alike_of_fields hn hn' (forall₂_of_forall₂ hstands hstands' ?_)
      intro field hm node node' hone hone'
      obtain ⟨v, hv⟩ := exists_of_forall₂ (forall₂_of_literalFields? hvs) hm
      exact ⟨hone.1.symm.trans hone'.1,
        ih field.2 (List.mem_map_of_mem hm) hone.2 hone'.2 hv.2⟩

/-- Compiling a literal gives alike trees, whatever else the stores hold. -/
theorem place_alike (c : Compiler) (v : Value) (s s' : Store) :
    Alike (c.place v s).2 (c.place v s').2 (c.place v s).1 (c.place v s').1 := by
  have hstands : ∀ s : Store, Stands c (c.place v s).2 (.literal v) (c.place v s).1 := fun s => by
    have hb : c.build (.literal v) Path.root s = .ok (c.place v s) := by rw [build]
    exact (c.build_spec (.literal v) (fits_literal v s) hb).stands
  exact (hstands s).alike (hstands s') rfl

/-- An entry made of values, sequences and records only spells a literal. It is inferred, typed and
compiled like that literal written as one value: both are compiled, to trees that are alike. -/
theorem compile_spelling (c : Compiler) {config : Config} (s s' : Store)
    (harray : ∀ items, c.isElement (.array items) = false)
    (hobject : ∀ fields, c.isElement (.object fields) = false)
    (h : ∀ entry ∈ config.entries, entry.isData = true) :
    ∃ v, config.toLiteral? = some v ∧
      c.inference.ofConfig? config = c.inference.ofValue? v ∧
      c.inference.typeOf config = c.inference.typeOf (.literal v) ∧
      ∃ id s₁ id' s₁', c.compile config s = .ok (id, s₁) ∧
        c.compile (.literal v) s' = .ok (id', s₁') ∧ Alike s₁ s₁' id id' := by
  obtain ⟨v, hv⟩ := exists_toLiteral? h
  have htype : c.inference.typeOf (.literal v) = c.inference.typeOfValue v := by
    rw [Inference.typeOf]
  have hliteral : c.compile (.literal v) s' = .ok (c.place v s') := by rw [compile, build]
  refine ⟨v, hv, Inference.ofConfig?_of_toLiteral? harray hobject hv, ?_, _, _, _, _,
    build_of_toLiteral? harray hobject hv Path.root s, hliteral, c.place_alike v s s'⟩
  rw [htype]
  exact Inference.typeOf_of_toLiteral? harray hobject hv

/-- A record and a sequence around values, one of them an instance. -/
def mixedConfig : Config :=
  .record [("tags", .sequence [.literal (.bool true), .sequence []]),
    ("origin", .literal (.instanceOf "Point" [("x", .null)])), ("rest", .record [])]

/-- The literal that `mixedConfig` spells. -/
def mixedValue : Value :=
  .object [("tags", .array [.bool true, .array []]),
    ("origin", .instanceOf "Point" [("x", .null)]), ("rest", .object [])]

/-- Containers are taken apart, and instances are elements. -/
def pickyCompiler : Compiler :=
  ⟨⟨.structural, .expand⟩, fun v => match v with
    | .instanceOf _ _ => true
    | _ => false⟩

/-- The second store already holds an empty list. -/
theorem compile_spelling_mixed :
    (∀ items, pickyCompiler.isElement (.array items) = false) ∧
      (∀ fields, pickyCompiler.isElement (.object fields) = false) ∧
      (∀ entry ∈ mixedConfig.entries, entry.isData = true) ∧
      pickyCompiler.inference.typeOf mixedConfig =
        pickyCompiler.inference.typeOf (.literal mixedValue) ∧
      ∃ id s id' s', pickyCompiler.compile mixedConfig ∅ = .ok (id, s) ∧
        pickyCompiler.compile (.literal mixedValue) ((∅ : Store).list []).2 = .ok (id', s') ∧
        Alike s s' id id' := by
  have harray : ∀ items, pickyCompiler.isElement (.array items) = false := fun _ => rfl
  have hobject : ∀ fields, pickyCompiler.isElement (.object fields) = false := fun _ => rfl
  have hdata : ∀ entry ∈ mixedConfig.entries, entry.isData = true := by
    simp [mixedConfig, entries, itemEntries, fieldEntries, isData]
  obtain ⟨v, hv, -, htype, hcompile⟩ :=
    compile_spelling pickyCompiler ∅ ((∅ : Store).list []).2 harray hobject hdata
  have hmixed : mixedConfig.toLiteral? = some mixedValue := rfl
  rw [hmixed, Option.some.injEq] at hv
  subst hv
  exact ⟨harray, hobject, hdata, htype, hcompile⟩

end Compiler

end StateTree
