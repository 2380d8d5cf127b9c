import StateTree.Proofs.Compile.Building
import StateTree.Proofs.Typing

/-
  Taking entries apart call by call. Building and resolving are recursions over what an entry is
  made of; here the same is done by functions that call each other on whole entries, down to a
  depth, and that note each entry they take apart. They also say what to do with an entry that has
  no parts: building holds a stray literal as a value of any type and enters any other entry again,
  and resolving finds no fields. Main statement: a depth beyond the size of an entry is never used
  up, the outcome is that of building and of resolving, and only what has parts is taken apart
  (`descent_total`). So nothing ever comes to these last resorts.
-/

namespace StateTree

/-- Why a descent ends without a result. -/
inductive Halt
  | failed (e : Error)
  /-- The depth is used up. -/
  | unfinished

/-- A step over a state that may fail, with the entries that it takes apart. -/
def Descent (σ α : Type) : Type := σ → List Config × Except Halt (α × σ)

namespace Descent

variable {σ α β : Type}

instance : Monad (Descent σ) where
  pure a := fun s => ([], .ok (a, s))
  bind m k := fun s =>
    match m s with
    | (noted, .ok (a, s)) => (noted ++ (k a s).1, (k a s).2)
    | (noted, .error halt) => (noted, .error halt)

def halt (h : Halt) : Descent σ α := fun _ => ([], .error h)

/-- A step that takes nothing apart. -/
def lift (f : σ → Except Error (α × σ)) : Descent σ α := fun s => ([], (f s).mapError .failed)

def make (f : σ → α × σ) : Descent σ α := lift fun s => .ok (f s)

/-- Takes an entry apart in the step that follows. -/
def noting (config : Config) (m : Descent σ α) : Descent σ α := fun s =>
  (config :: (m s).1, (m s).2)

theorem bind_apply (m : Descent σ α) (k : α → Descent σ β) (s : σ) :
    (m >>= k) s =
      match m s with
      | (noted, .ok (a, s)) => (noted ++ (k a s).1, (k a s).2)
      | (noted, .error halt) => (noted, .error halt) := rfl

/-! ## Descents and what they come to -/

/-- Whatever the state, the descent ends as `f` does, and takes apart only entries that `P`
allows. -/
def Follows (P : Config → Prop) (m : Descent σ α) (f : σ → Except Error (α × σ)) : Prop :=
  ∀ s, ∃ noted, (∀ entry ∈ noted, P entry) ∧ m s = (noted, (f s).mapError .failed)

variable {P : Config → Prop} {m : Descent σ α} {f g : σ → Except Error (α × σ)}

theorem Follows.lift (f : σ → Except Error (α × σ)) : Follows P (Descent.lift f) f :=
  fun _ => ⟨[], by simp, rfl⟩

theorem Follows.pure (a : α) : Follows P (Pure.pure a : Descent σ α) fun s => .ok (a, s) :=
  fun _ => ⟨[], by simp, rfl⟩

theorem Follows.of_eq (h : Follows P m f) (heq : ∀ s, f s = g s) : Follows P m g := by
  have : f = g := funext heq
  exact this ▸ h

theorem Follows.bind {k : α → Descent σ β} {g : α → σ → Except Error (β × σ)}
    (h : Follows P m f) (hk : ∀ a, Follows P (k a) (g a)) :
    Follows P (m >>= k) fun s => f s >>= fun r => g r.1 r.2 := by
  intro s
  obtain ⟨noted, hnoted, hm⟩ := h s
  simp only [bind_apply, hm]
  cases f s with
  | error e => exact ⟨noted, hnoted, rfl⟩
  | ok r =>
    obtain ⟨noted', hnoted', hk⟩ := hk r.1 r.2
    refine ⟨noted ++ noted', List.forall_mem_append.2 ⟨hnoted, hnoted'⟩, ?_⟩
    show (noted ++ (k r.1 r.2).1, (k r.1 r.2).2) = _
    rw [hk]
    rfl

theorem Follows.noting {config : Config} (hconfig : P config) (h : Follows P m f) :
    Follows P (noting config m) f := by
  intro s
  obtain ⟨noted, hnoted, hm⟩ := h s
  refine ⟨config :: noted, List.forall_mem_cons.2 ⟨hconfig, hnoted⟩, ?_⟩
  rw [Descent.noting, hm]

end Descent

namespace Config

/-- Entries that have entries or values as parts. -/
def isContainer : Config → Bool
  | .sequence _ => true
  | .record _ => true
  | .literal (.array _) => true
  | .literal (.object _) => true
  | .literal (.instanceOf _ _) => true
  | _ => false

/-- Entries that have named parts. -/
def hasFields : Config → Bool
  | .record _ => true
  | .literal (.object _) => true
  | .literal (.instanceOf _ _) => true
  | _ => false

end Config

open Descent Config

/-! ## Building -/

namespace Compiler

section Calls

variable (enter : Config → Path → Descent Store NodeId)

def enterItems : List Config → Path → Nat → Descent Store (List NodeId)
  | [], _, _ => pure []
  | item :: rest, path, index => do
    let id ← enter item (Path.join path (toString index))
    let ids ← enterItems rest path (index + 1)
    return id :: ids

def enterFields : List (String × Config) → Path → Descent Store (Fields NodeId)
  | [], _ => pure []
  | (_, .validates _) :: rest, path => enterFields rest path
  | (name, child) :: rest, path => do
    let id ← enter child (Path.join path name)
    let ids ← enterFields rest path
    return (name, id) :: ids

def enterList (items : List Config) (path : Path) : Descent Store NodeId := do
  let ids ← enterItems enter items path 0
  make (·.list ids)

def enterRecord (fields : List (String × Config)) (path : Path) : Descent Store NodeId := do
  let data ← enterFields enter fields path
  lift fun s => do
    let targets ← resolveAll s data (validations fields)
    return s.record data targets

/-- Takes an entry apart that stands at a path. -/
def expand (config : Config) (path : Path) : Descent Store NodeId :=
  noting config <|
    match config with
    | .sequence items => enterList enter items path
    | .record fields => enterRecord enter fields path
    | .literal (.array items) => enterList enter (items.map .literal) path
    | .literal (.object fields) =>
      enterRecord enter (fields.map fun field => (field.1, .literal field.2)) path
    | .literal (.instanceOf _ fields) =>
      enterRecord enter (fields.map fun field => (field.1, .literal field.2)) path
    -- Here a literal has no parts, and whatever else comes is an entry that was just entered.
    | .literal v => make (·.scalar ((Declaration.primitive .any).defaultsTo v))
    | _ => enter config path

end Calls

/-- Builds the nodes of an entry that stands at a path, down to a depth. -/
def enter (c : Compiler) : Nat → Config → Path → Descent Store NodeId
  | 0, _, _ => halt .unfinished
  | depth + 1, config, path =>
    match config with
    | .node id => pure id
    | .pending _ => halt (.failed (.missingDefault path))
    | .scalar d =>
      if d.isUsable then make (·.scalar d) else halt (.failed (.missingDefault path))
    | .shape inner _ => enter c depth inner path
    | .validates target => halt (.failed (.detachedValidation target))
    | _ =>
      match c.scalarOf? config with
      | some d => make (·.scalar d)
      | none => expand (enter c depth) config path

variable {c : Compiler} {enter : Config → Path → Descent Store NodeId} {path : Path}
  {P : Config → Prop}

theorem enterItems_follows {items : List Config} {index : Nat}
    (h : ∀ item ∈ items, ∀ path, Follows P (enter item path) (c.build item path)) :
    Follows P (enterItems enter items path index) (c.buildItems items path index) := by
  induction items generalizing index with
  | nil => exact .pure []
  | cons item rest ih =>
    rw [List.forall_mem_cons] at h
    exact ((h.1 _).bind fun id => (ih h.2).bind fun ids => .pure (id :: ids)).of_eq fun _ => rfl

theorem enterFields_cons (name : String) {child : Config} (h : child.isValidation = false)
    (rest : List (String × Config)) (path : Path) :
    enterFields enter ((name, child) :: rest) path = (do
      let id ← enter child (Path.join path name)
      let ids ← enterFields enter rest path
      return (name, id) :: ids) := by
  cases child with
  | validates path => simp [Config.isValidation] at h
  | _ => rw [enterFields]; simp

theorem enterFields_follows {fields : List (String × Config)}
    (h : ∀ field ∈ fields, ∀ path, Follows P (enter field.2 path) (c.build field.2 path)) :
    Follows P (enterFields enter fields path) (c.buildFields fields path) := by
  induction fields with
  | nil => exact .pure []
  | cons field rest ih =>
    obtain ⟨name, child⟩ := field
    rw [List.forall_mem_cons] at h
    cases hv : child.isValidation with
    | true =>
      obtain ⟨target, rfl⟩ := (isValidation_iff child).1 hv
      rw [enterFields]
      exact (ih h.2).of_eq fun s => by rw [buildFields]
    | false =>
      rw [enterFields_cons name hv]
      refine ((h.1 _).bind fun id => (ih h.2).bind fun ids => .pure ((name, id) :: ids)).of_eq
        fun s => ?_
      rw [buildFields_cons c name hv]
      rfl

/-- The parts of an entry are entered, and then put together. -/
theorem enterList_follows {items : List Config}
    (h : ∀ item ∈ items, ∀ path, Follows P (enter item path) (c.build item path)) :
    Follows P (enterList enter items path) fun s => c.assemble path s (.list items) :=
  ((enterItems_follows h).bind fun _ => .lift _).of_eq fun _ => rfl

theorem enterRecord_follows {fields : List (String × Config)}
    (h : ∀ child ∈ fields.map (·.2), ∀ path, Follows P (enter child path) (c.build child path)) :
    Follows P (enterRecord enter fields path) fun s => c.assemble path s (.record fields) := by
  have hfields : ∀ field ∈ fields, ∀ path,
      Follows P (enter field.2 path) (c.build field.2 path) :=
    fun field hm => h field.2 (List.mem_map_of_mem hm)
  exact ((enterFields_follows hfields).bind fun _ => .lift _).of_eq fun _ => rfl

/-- What has parts and is not settled as a scalar is taken apart into its layout. -/
theorem expand_follows {config : Config} (hcontainer : config.isContainer = true)
    (hnone : c.scalarOf? config = none) (hP : P config)
    (h : ∀ sub ∈ (c.layout config).parts, ∀ path,
      Follows P (enter sub path) (c.build sub path)) :
    Follows P (expand enter config path) (c.build config path) := by
  have heq : ∀ s, c.assemble path s (c.layout config) = c.build config path s := fun s =>
    (c.build_eq config path s).symm
  refine .noting hP (.of_eq ?_ heq)
  cases config with
  | sequence items =>
    rw [layout, hnone] at h ⊢
    exact enterList_follows h
  | record fields =>
    rw [layout, hnone] at h ⊢
    exact enterRecord_follows h
  | literal v =>
    rw [scalarOf?_literal] at hnone
    rw [layout, hnone] at h ⊢
    cases v with
    | array items => exact enterList_follows h
    | object fields => exact enterRecord_follows h
    | instanceOf className fields => exact enterRecord_follows h
    | _ => simp [isContainer] at hcontainer
  | _ => simp [isContainer] at hcontainer

/-- From a literal without parts something is always inferred, whatever the policies are. -/
theorem isContainer_of_scalarOf? {v : Value} (h : c.scalarOf? (.literal v) = none) :
    (Config.literal v).isContainer = true := by
  rw [scalarOf?_literal] at h
  cases v with
  | array _ | object _ | instanceOf _ _ => rfl
  | _ => simp [scalarOfValue?, Inference.ofValue?] at h

/-- An entry that is inferred or taken apart. -/
theorem settle_follows {config : Config}
    (hsettled : ∀ d, c.scalarOf? config = some d → c.layout config = .scalar d)
    (hcontainer : c.scalarOf? config = none → config.isContainer = true)
    (h : ∀ sub ∈ (c.layout config).parts, ∀ path,
      Follows (·.isContainer = true) (enter sub path) (c.build sub path)) :
    Follows (·.isContainer = true)
      (match c.scalarOf? config with
        | some d => make (·.scalar d)
        | none => expand enter config path)
      (c.build config path) := by
  cases hd : c.scalarOf? config with
  | some d =>
    refine (Follows.lift _).of_eq fun s => ?_
    rw [build_eq, hsettled d hd]
    rfl
  | none => exact expand_follows (hcontainer hd) hd (hcontainer hd) h

/-- A depth beyond the size of an entry is never used up in building it. -/
theorem enter_follows (c : Compiler) : ∀ {depth : Nat} {config : Config} {path : Path},
    sizeOf config < depth →
      Follows (·.isContainer = true) (c.enter depth config path) (c.build config path)
  | 0, _, _, hlt => absurd hlt (Nat.not_lt_zero _)
  | depth + 1, config, path, hlt => by
    -- Each call below costs one level, and the entry that it is about is smaller.
    have hparts : ∀ sub ∈ (c.layout config).parts, ∀ path,
        Follows (·.isContainer = true) (c.enter depth sub path) (c.build sub path) :=
      fun sub hm path => by
        have hsub := (parts_layout c hm).1
        exact enter_follows c (by omega)
    cases config with
    | node id => exact .pure id
    | pending template => exact .lift fun _ => .error (.missingDefault path)
    | scalar d =>
      have hbuild : c.build (.scalar d) path = fun s =>
          if d.isUsable then .ok (s.scalar d) else .error (.missingDefault path) :=
        funext fun s => by rw [build]
      rw [enter, hbuild]
      split
      · exact .lift _
      · exact .lift fun _ => .error (.missingDefault path)
    | shape inner required =>
      have hinner : sizeOf inner < depth := by
        simp only [shape.sizeOf_spec] at hlt
        omega
      show Follows _ (c.enter depth inner path) (c.build inner path)
      exact enter_follows c hinner
    | validates target => exact .lift fun _ => .error (.detachedValidation target)
    | sequence items =>
      exact settle_follows (fun d hd => by rw [layout, hd]) (fun _ => rfl) hparts
    | record fields =>
      exact settle_follows (fun d hd => by rw [layout, hd]) (fun _ => rfl) hparts
    | literal v =>
      exact settle_follows (fun d hd => by rw [layout, ← scalarOf?_literal, hd])
        isContainer_of_scalarOf? hparts

end Compiler

/-! ## Resolving -/

namespace Inference

section Calls

variable (resolve : Config → Descent Unit Schema)

def resolveItems : List Config → Descent Unit (List Schema)
  | [] => pure []
  | item :: rest => do
    let t ← resolve item
    return t :: (← resolveItems rest)

def resolveFields : List (String × Config) → Descent Unit (Fields Schema)
  | [] => pure []
  | (name, child) :: rest => do
    let t ← resolve child
    return (name, t) :: (← resolveFields rest)

/-- The type of an array. Items of different types take a union, which may be refused. -/
def resolveSequence (items : List Config) : Descent Unit Schema := do
  let types ← resolveItems resolve items
  lift fun s => (sequenceType types).map (·, s)

/-- Takes an entry apart that has a type with fields. -/
def resolveRecord (config : Config) : Descent Unit Schema :=
  noting config do
    let types ←
      match config with
      | .record fields => resolveFields resolve fields
      | .literal (.object fields) =>
        resolveFields resolve (fields.map fun field => (field.1, .literal field.2))
      | .literal (.instanceOf _ fields) =>
        resolveFields resolve (fields.map fun field => (field.1, .literal field.2))
      -- Whatever else comes here has no fields.
      | _ => pure []
    return .exactShapeOf types

end Calls

/-- The type of an entry, down to a depth. -/
def resolve (inference : Inference) : Nat → Config → Descent Unit Schema
  | 0, _ => halt .unfinished
  | depth + 1, config =>
    match config with
    | .node _ => halt (.failed .nodeInType)
    | .shape inner required => do
      let t ← resolve inference depth inner
      return if required && t.supportsRequired then t.asRequired else t
    | .scalar d => pure d.schema
    | .pending template => pure template.schema
    | .validates _ => pure .marker
    | .sequence items => resolveSequence (resolve inference depth) items
    | .literal (.array items) => resolveSequence (resolve inference depth) (items.map .literal)
    | _ =>
      match inference.ofConfig? config with
      | some d => pure d.schema
      | none => resolveRecord (resolve inference depth) config

/-- The descent comes to a type or to an error. -/
def Finds {α : Type} (m : Descent Unit α) (x : Except Error α) : Prop :=
  Follows (·.hasFields = true) m fun s => x.map (·, s)

section Finds

variable {α β : Type} {m : Descent Unit α} {x : Except Error α}

theorem Finds.pure (a : α) : Finds (Pure.pure a) (.ok a) := Follows.pure a

theorem Finds.lift (x : Except Error α) : Finds (Descent.lift fun s => x.map (·, s)) x :=
  Follows.lift _

theorem Finds.bind {k : α → Descent Unit β} {g : α → Except Error β} (h : Finds m x)
    (hk : ∀ a, Finds (k a) (g a)) : Finds (m >>= k) (x >>= g) :=
  (Follows.bind h hk).of_eq fun _ => by cases x <;> rfl

end Finds

variable {inference : Inference} {resolve : Config → Descent Unit Schema}

theorem resolveItems_finds {items : List Config}
    (h : ∀ item ∈ items, Finds (resolve item) (inference.typeOf item)) :
    Finds (resolveItems resolve items) (inference.typesOf items) := by
  induction items with
  | nil =>
    rw [typesOf]
    exact .pure []
  | cons item rest ih =>
    rw [List.forall_mem_cons] at h
    rw [resolveItems, typesOf]
    exact h.1.bind fun t => (ih h.2).bind fun ts => .pure (t :: ts)

theorem resolveFields_finds {fields : List (String × Config)}
    (h : ∀ child ∈ fields.map (·.2), Finds (resolve child) (inference.typeOf child)) :
    Finds (resolveFields resolve fields) (inference.fieldTypesOf fields) := by
  induction fields with
  | nil =>
    rw [fieldTypesOf]
    exact .pure []
  | cons field rest ih =>
    obtain ⟨name, child⟩ := field
    rw [List.map_cons, List.forall_mem_cons] at h
    rw [resolveFields, fieldTypesOf]
    exact h.1.bind fun t => (ih h.2).bind fun ts => .pure ((name, t) :: ts)

theorem resolveSequence_finds {items : List Config}
    (h : ∀ item ∈ items, Finds (resolve item) (inference.typeOf item)) :
    Finds (resolveSequence resolve items) (inference.typesOf items >>= sequenceType) :=
  (resolveItems_finds h).bind fun ts => .lift (sequenceType ts)

theorem resolveSequence_literal {items : List Value}
    (h : ∀ item ∈ (Compiler.opened (.array items)).parts,
      Finds (resolve item) (inference.typeOf item)) :
    Finds (resolveSequence resolve (items.map .literal))
      (inference.typeOfValue (.array items)) := by
  rw [typeOfValue, ← typesOf_literal]
  exact resolveSequence_finds h

/-- An object or an instance of which nothing is inferred is typed by its fields. -/
theorem resolveFields_literal {fields : List (String × Value)}
    (h : ∀ child ∈ (Compiler.opened (.object fields)).parts,
      Finds (resolve child) (inference.typeOf child)) :
    Finds (resolveFields resolve (fields.map fun field => (field.1, .literal field.2)))
      (inference.typesOfFields fields) :=
  fieldTypesOf_literal inference fields ▸ resolveFields_finds h

/-- A depth beyond the size of an entry is never used up in resolving it. -/
theorem resolve_finds (inference : Inference) : ∀ {depth : Nat} {config : Config},
    sizeOf config < depth → Finds (inference.resolve depth config) (inference.typeOf config)
  | 0, _, hlt => absurd hlt (Nat.not_lt_zero _)
  | depth + 1, config, hlt => by
    have hbelow : ∀ sub, sizeOf sub < sizeOf config →
        Finds (inference.resolve depth sub) (inference.typeOf sub) := fun sub hsub =>
      resolve_finds inference (by omega)
    cases config with
    | node id =>
      rw [typeOf]
      exact Follows.lift fun _ => .error .nodeInType
    | pending d | scalar d =>
      rw [typeOf]
      exact .pure d.schema
    | validates path =>
      rw [typeOf]
      exact .pure Schema.marker
    | shape inner required =>
      rw [typeOf]
      exact (hbelow inner (by simp only [shape.sizeOf_spec]; omega)).bind fun t => .pure _
    | sequence items =>
      rw [typeOf]
      exact resolveSequence_finds fun item hm => hbelow item (Compiler.sizeOf_lt_of_item hm)
    | record fields =>
      have hfields : Finds (resolveFields (inference.resolve depth) fields)
          (inference.fieldTypesOf fields) :=
        resolveFields_finds fun child hm => hbelow child (Compiler.sizeOf_lt_of_field hm)
      rw [typeOf]
      unfold resolve
      cases inference.ofConfig? (.record fields) with
      | some d => exact .pure d.schema
      | none => exact Follows.noting rfl (hfields.bind fun ts => .pure (Schema.exactShapeOf ts))
    | literal v =>
      have hparts : ∀ sub ∈ (Compiler.opened v).parts,
          Finds (inference.resolve depth sub) (inference.typeOf sub) := fun sub hm => by
        obtain ⟨w, rfl, hlt⟩ := Compiler.parts_opened hm
        exact hbelow (.literal w) (by simp only [literal.sizeOf_spec]; omega)
      have hliteral : inference.ofConfig? (.literal v) = inference.ofValue? v := rfl
      rw [typeOf]
      cases v with
      | array items => exact resolveSequence_literal hparts
      | object fields =>
        rw [typeOfValue]
        unfold resolve
        rw [hliteral]
        cases inference.ofValue? (.object fields) with
        | some d => exact .pure d.schema
        | none =>
          exact Follows.noting rfl
            ((resolveFields_literal hparts).bind fun ts => .pure (Schema.exactShapeOf ts))
      | instanceOf className fields =>
        rw [typeOfValue]
        unfold resolve
        rw [hliteral]
        cases inference.ofValue? (.instanceOf className fields) with
        | some d => exact .pure d.schema
        | none =>
          exact Follows.noting rfl
            ((resolveFields_literal hparts).bind fun ts => .pure (Schema.exactShapeOf ts))
      | _ =>
        unfold typeOfValue
        exact .pure _

end Inference

/-- Beyond the size of an entry the recursions end, as building and resolving do, and of all entries
they only take apart those with parts, and those with named parts. -/
theorem descent_total (c : Compiler) (inference : Inference) {config : Config} {depth : Nat}
    (h : sizeOf config < depth) :
    (∀ path, Follows (·.isContainer = true) (c.enter depth config path) (c.build config path)) ∧
      Follows (·.hasFields = true) (inference.resolve depth config) fun s =>
        (inference.typeOf config).map (·, s) :=
  ⟨fun _ => c.enter_follows h, inference.resolve_finds h⟩

/-- A draft of which nothing can be inferred where arrays and empty objects are taken apart: the
class of its author is blank. -/
def draft : Config :=
  .record [("author", .literal (.instanceOf " " [("name", .string "")])),
    ("lines", .literal (.array [])), ("marks", .literal (.object []))]

def structural : Compiler := ⟨⟨.structural, .instanceOf⟩, fun _ => false⟩

theorem descent_total_draft :
    (∀ path, Follows (·.isContainer = true) (structural.enter (sizeOf draft + 1) draft path)
        (structural.build draft path)) ∧
      Follows (·.hasFields = true) (Inference.standard.resolve (sizeOf draft + 1) draft)
        (fun s => (Inference.standard.typeOf draft).map (·, s)) ∧
      (structural.enter 3 draft Path.root .empty).1 =
        [draft, .literal (.instanceOf " " [("name", .string "")]), .literal (.array []),
          .literal (.object [])] ∧
      (Inference.standard.resolve 3 draft ()).1 =
        [draft, .literal (.instanceOf " " [("name", .string "")])] := by
  obtain ⟨hbuild, htype⟩ :=
    descent_total structural Inference.standard (Nat.lt_succ_self (sizeOf draft))
  exact ⟨hbuild, htype, rfl, rfl⟩

end StateTree
