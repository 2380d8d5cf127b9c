import StateTree.Proofs.Compile.Building
import StateTree.Proofs.Store.Growth

/-
  Building in place. An attempt goes through the same steps as a build, but where it fails it shows
  the store as the failure found it, with all nodes built so far. A build is an attempt that is
  committed to only if it succeeds (`commit_attempt`). Main statement: whatever becomes of an
  attempt, the store has only grown, over nodes that the entry names or that are new
  (`attempt_grows`).
-/

namespace StateTree

/-- A step that may fail. A failure keeps what was built before. -/
abbrev Attempt (α : Type) : Type := ExceptT Error (StateM Store) α

namespace Attempt

variable {α β : Type}

def make (f : Store → α × Store) : Attempt α := fun s => (.ok (f s).1, (f s).2)

def check (f : Store → Except Error α) : Attempt α := fun s => (f s, s)

/-- All or nothing: the store of a failure is given up. -/
def commit (m : Attempt α) (s : Store) : Except Error (α × Store) :=
  match m s with
  | (.ok a, s) => .ok (a, s)
  | (.error e, _) => .error e

theorem bind_apply (m : Attempt α) (f : α → Attempt β) (s : Store) :
    (m >>= f) s =
      match m s with
      | (.ok a, s) => f a s
      | (.error e, s) => (.error e, s) := by
  show (match m s with | (r, s) => ExceptT.bindCont f r s) = _
  rcases m s with ⟨r, s'⟩
  cases r <;> rfl

theorem commit_bind (m : Attempt α) (f : α → Attempt β) (s : Store) :
    (m >>= f).commit s = m.commit s >>= fun r => (f r.1).commit r.2 := by
  unfold commit
  rw [bind_apply]
  rcases m s with ⟨r, s'⟩
  cases r <;> rfl

theorem commit_eq_ok {m : Attempt α} {s s' : Store} {a : α} :
    m.commit s = .ok (a, s') ↔ m s = (.ok a, s') := by
  unfold commit
  rcases m s with ⟨r, s''⟩
  constructor
  all_goals
    intro h
    cases r <;> cases h
    rfl

theorem commit_check (f : Store → Except Error α) (s : Store) :
    (check f).commit s = (f s).map (·, s) := by
  unfold commit check
  cases f s <;> rfl

end Attempt

namespace Compiler

open Attempt Config Store

mutual

/-- Builds the nodes of an entry that stands at a path. -/
def attempt (c : Compiler) : Config → Path → Attempt NodeId
  | .node id, _ => pure id
  | .pending _, path => throw (.missingDefault path)
  | .scalar d, path => if d.isUsable then make (·.scalar d) else throw (.missingDefault path)
  | .shape inner _, path => attempt c inner path
  | .validates target, _ => throw (.detachedValidation target)
  | .sequence items, path =>
    match c.scalarOf? (.sequence items) with
    | some d => make (·.scalar d)
    | none => do
      let ids ← attemptItems c items path 0
      make (·.list ids)
  | .record fields, path =>
    match c.scalarOf? (.record fields) with
    | some d => make (·.scalar d)
    | none => do
      let data ← attemptFields c fields path
      let targets ← check fun s => resolveAll s data (validations fields)
      make (·.record data targets)
  | .literal v, _ => make (c.place v)

/-- Builds the items of a sequence from a position on. -/
def attemptItems (c : Compiler) : List Config → Path → Nat → Attempt (List NodeId)
  | [], _, _ => pure []
  | item :: rest, path, index => do
    let id ← attempt c item (Path.join path (toString index))
    let ids ← attemptItems c rest path (index + 1)
    return id :: ids

/-- Builds the data fields of a record. -/
def attemptFields (c : Compiler) : List (String × Config) → Path → Attempt (Fields NodeId)
  | [], _ => pure []
  | (_, .validates _) :: rest, path => attemptFields c rest path
  | (name, child) :: rest, path => do
    let id ← attempt c child (Path.join path name)
    let ids ← attemptFields c rest path
    return (name, id) :: ids

end

theorem attemptFields_cons (c : Compiler) (name : String) {entry : Config}
    (h : entry.isValidation = false) (rest : List (String × Config)) (path : Path) :
    c.attemptFields ((name, entry) :: rest) path = (do
      let id ← c.attempt entry (Path.join path name)
      let ids ← c.attemptFields rest path
      return (name, id) :: ids) := by
  cases entry with
  | validates path => simp [Config.isValidation] at h
  | _ => rw [attemptFields]; simp

/-! ## Committing -/

mutual

/-- A build is an attempt that succeeds or leaves nothing. -/
theorem commit_attempt (c : Compiler) : ∀ (config : Config) (path : Path) (s : Store),
    (c.attempt config path).commit s = c.build config path s
  | .node id, path, s => rfl
  | .pending template, path, s => rfl
  | .scalar d, path, s => by
    rw [attempt, build]
    split <;> rfl
  | .shape inner required, path, s => by
    rw [attempt, build]
    exact commit_attempt c inner path s
  | .validates target, path, s => rfl
  | .sequence items, path, s => by
    rw [attempt, build]
    cases c.scalarOf? (.sequence items) with
    | some d => rfl
    | none =>
      show Attempt.commit (_ >>= _) s = _
      rw [commit_bind, commit_attemptItems c items path 0 s]
      rfl
  | .record fields, path, s => by
    rw [attempt, build]
    cases c.scalarOf? (.record fields) with
    | some d => rfl
    | none =>
      show Attempt.commit (_ >>= _) s = _
      rw [commit_bind, commit_attemptFields c fields path s]
      refine bind_congr fun ⟨data, s⟩ => ?_
      rw [commit_bind, commit_check]
      show (resolveAll s data (validations fields)).map _ >>= _ = resolveAll s data _ >>= _
      cases resolveAll s data (validations fields) <;> rfl
  | .literal v, path, s => rfl

theorem commit_attemptItems (c : Compiler) : ∀ (items : List Config) (path : Path) (index : Nat)
    (s : Store), (c.attemptItems items path index).commit s = c.buildItems items path index s
  | [], path, index, s => rfl
  | item :: rest, path, index, s => by
    rw [attemptItems, buildItems, commit_bind, commit_attempt c item _ s]
    refine bind_congr fun r => ?_
    rw [commit_bind, commit_attemptItems c rest path (index + 1) r.2]
    rfl

theorem commit_attemptFields (c : Compiler) : ∀ (fields : List (String × Config)) (path : Path)
    (s : Store), (c.attemptFields fields path).commit s = c.buildFields fields path s
  | [], path, s => rfl
  | (name, entry) :: rest, path, s => by
    cases hv : entry.isValidation with
    | true =>
      obtain ⟨target, rfl⟩ := (isValidation_iff entry).1 hv
      rw [attemptFields, buildFields]
      exact commit_attemptFields c rest path s
    | false =>
      rw [attemptFields_cons c name hv, buildFields_cons c name hv, commit_bind,
        commit_attempt c entry _ s]
      refine bind_congr fun r => ?_
      rw [commit_bind, commit_attemptFields c rest path r.2]
      rfl

end

theorem compile_eq_ok {c : Compiler} {config : Config} {s s' : Store} {id : NodeId} :
    c.compile config s = .ok (id, s') ↔ c.attempt config Path.root s = (.ok id, s') := by
  unfold compile
  rw [← commit_attempt, commit_eq_ok]

/-! ## What is built in place -/

variable {given : NodeId → Prop} {s s' : Store} {r : NodeId × Store}

/-- Every identity that is still unused counts as given. -/
def Unused (given : NodeId → Prop) (s : Store) : Prop := ∀ id : NodeId, s.size ≤ id.index → given id

theorem Unused.growth (h : Unused given s) (hg : Growth given s s') : Unused given s' :=
  fun id hid => h id (Nat.le_trans hg.extends_.size_le hid)

/-- The store has grown to hold a node that is new or was given. -/
def Grown (given : NodeId → Prop) (s : Store) (r : NodeId × Store) : Prop :=
  Growth given s r.2 ∧ r.2.Has r.1 ∧ given r.1

theorem grown_of_build (hb : Build given s r.2) (hid : r.1 = s.next) (hu : Unused given s) :
    Grown given s r :=
  ⟨.single hb, hid ▸ hb.spec.2.1, hid ▸ hu s.next (Nat.le_refl _)⟩

theorem Grown.after (h : Grown given s' r) (hg : Growth given s s') : Grown given s r :=
  ⟨hg.trans h.1, h.2⟩

mutual

theorem place_grown (c : Compiler) : ∀ (v : Value) {s : Store}, Unused given s →
    Grown given s (c.place v s)
  | .array items, s, hu => by
    rw [place]
    cases c.scalarOfValue? (.array items) with
    | some d => exact grown_of_build (.scalar d) rfl hu
    | none =>
      obtain ⟨hg, hids⟩ := placeItems_grown c items hu
      exact (grown_of_build (.list hids) rfl (hu.growth hg)).after hg
  | .object fields, s, hu => by
    rw [place]
    cases c.scalarOfValue? (.object fields) with
    | some d => exact grown_of_build (.scalar d) rfl hu
    | none =>
      obtain ⟨hg, hids⟩ := placeFields_grown c fields hu
      exact (grown_of_build (.record hids []) rfl (hu.growth hg)).after hg
  | .instanceOf className fields, s, hu => by
    rw [place]
    cases c.scalarOfValue? (.instanceOf className fields) with
    | some d => exact grown_of_build (.scalar d) rfl hu
    | none =>
      obtain ⟨hg, hids⟩ := placeFields_grown c fields hu
      exact (grown_of_build (.record hids []) rfl (hu.growth hg)).after hg
  | .null, s, hu | .bool _, s, hu | .number _, s, hu | .string _, s, hu | .symbol _, s, hu
  | .function _, s, hu => by
    rw [place]
    · split <;> exact grown_of_build (.scalar _) rfl hu
    all_goals simp

theorem placeItems_grown (c : Compiler) : ∀ (items : List Value) {s : Store}, Unused given s →
    Growth given s (c.placeItems items s).2 ∧
      ∀ id ∈ (c.placeItems items s).1, (c.placeItems items s).2.Has id ∧ given id
  | [], s, hu => ⟨.refl, by simp [placeItems]⟩
  | v :: rest, s, hu => by
    obtain ⟨hg, hhas, hgiven⟩ := place_grown c v hu
    obtain ⟨hg', hids⟩ := placeItems_grown c rest (hu.growth hg)
    rw [placeItems]
    refine ⟨hg.trans hg', fun id hm => ?_⟩
    rcases List.mem_cons.1 hm with rfl | hm
    · exact ⟨hg'.extends_.has hhas, hgiven⟩
    · exact hids id hm

theorem placeFields_grown (c : Compiler) : ∀ (fields : List (String × Value)) {s : Store},
    Unused given s → Growth given s (c.placeFields fields s).2 ∧
      ∀ field ∈ (c.placeFields fields s).1,
        (c.placeFields fields s).2.Has field.2 ∧ given field.2
  | [], s, hu => ⟨.refl, by simp [placeFields]⟩
  | (name, v) :: rest, s, hu => by
    obtain ⟨hg, hhas, hgiven⟩ := place_grown c v hu
    obtain ⟨hg', hids⟩ := placeFields_grown c rest (hu.growth hg)
    rw [placeFields]
    refine ⟨hg.trans hg', fun field hm => ?_⟩
    rcases List.mem_cons.1 hm with rfl | hm
    · exact ⟨hg'.extends_.has hhas, hgiven⟩
    · exact hids field hm

end

/-! ## What an attempt leaves -/

/-- Whatever becomes of the attempt, the store has only grown; and if it succeeds, its result is
as `post` says. -/
def Grows {α : Type} (given : NodeId → Prop) (s : Store) (m : Attempt α)
    (post : Store → α → Prop) : Prop :=
  Growth given s (m s).2 ∧ ∀ a, (m s).1 = .ok a → post (m s).2 a

/-- What is built is there, and it is new or was given. -/
def Supplied (given : NodeId → Prop) (s : Store) (id : NodeId) : Prop := s.Has id ∧ given id

theorem Grows.pure {α : Type} {post : Store → α → Prop} {a : α} (h : post s a) :
    Grows given s (Pure.pure a) post :=
  ⟨.refl, fun _ e => Except.ok.inj e ▸ h⟩

theorem Grows.throw {α : Type} {post : Store → α → Prop} (e : Error) :
    Grows given s (MonadExcept.throw e) post :=
  ⟨.refl, fun a (h : Except.error e = .ok a) => nomatch h⟩

theorem Grows.make {f : Store → NodeId × Store} (h : Grown given s (f s)) :
    Grows given s (Attempt.make f) (Supplied given) :=
  ⟨h.1, fun _ e => Except.ok.inj e ▸ h.2⟩

theorem Grows.bind {α β : Type} {m : Attempt α} {f : α → Attempt β} {mid : Store → α → Prop}
    {post : Store → β → Prop} (h : Grows given s m mid)
    (hf : ∀ a s', Growth given s s' → mid s' a → Grows given s' (f a) post) :
    Grows given s (m >>= f) post := by
  unfold Grows at h ⊢
  rw [bind_apply]
  rcases hm : m s with ⟨r, s'⟩
  rw [hm] at h
  cases r with
  | error e => exact ⟨h.1, fun a (ha : Except.error e = .ok a) => nomatch ha⟩
  | ok a =>
    obtain ⟨hg, hpost⟩ := hf a s' h.1 (h.2 a rfl)
    exact ⟨h.1.trans hg, hpost⟩

mutual

/-- Whether it succeeds or not, an attempt adds nodes over what it was given, and no more. -/
theorem attempt_grows (c : Compiler) : ∀ (config : Config) (path : Path) {s : Store},
    config.Fits s → (∀ id, .node id ∈ config.entries → given id) → Unused given s →
      Grows given s (c.attempt config path) (Supplied given)
  | .node id, path, s, hf, hn, hu =>
    .pure ⟨hf.has id (by simp [entries]), hn id (by simp [entries])⟩
  | .pending template, path, s, hf, hn, hu => .throw _
  | .scalar d, path, s, hf, hn, hu => by
    rw [attempt]
    split
    · exact .make (grown_of_build (.scalar d) rfl hu)
    · exact .throw _
  | .shape inner required, path, s, hf, hn, hu => by
    have hsub := entries_inner inner required
    rw [attempt]
    exact attempt_grows c inner path (hf.of_subset hsub) (fun id hm => hn id (hsub hm)) hu
  | .validates target, path, s, hf, hn, hu => .throw _
  | .sequence items, path, s, hf, hn, hu => by
    rw [attempt]
    cases c.scalarOf? (.sequence items) with
    | some d => exact .make (grown_of_build (.scalar d) rfl hu)
    | none =>
      refine (attemptItems_grows c items path 0 (fun item hm => ?_) (fun item hm id hid => ?_)
        hu).bind fun ids s' hg hids => .make (grown_of_build (.list hids) rfl (hu.growth hg))
      · exact hf.of_subset (entries_item hm)
      · exact hn id (entries_item hm hid)
  | .record fields, path, s, hf, hn, hu => by
    rw [attempt]
    cases c.scalarOf? (.record fields) with
    | some d => exact .make (grown_of_build (.scalar d) rfl hu)
    | none =>
      refine (attemptFields_grows c fields path (fun field hm => ?_) (fun field hm id hid => ?_)
        hu).bind fun data s' hg hdata => ?_
      · exact hf.of_subset (entries_field hm)
      · exact hn id (entries_field hm hid)
      -- Following the paths builds nothing.
      have hcheck : Grows given s' (check fun s => resolveAll s data (validations fields))
          fun s'' _ => s'' = s' := ⟨.refl, fun _ _ => rfl⟩
      refine hcheck.bind fun targets s'' hg' e => ?_
      subst e
      exact .make (grown_of_build (.record hdata targets) rfl (hu.growth hg))
  | .literal v, path, s, hf, hn, hu => .make (place_grown c v hu)

theorem attemptItems_grows (c : Compiler) : ∀ (items : List Config) (path : Path) (index : Nat)
    {s : Store}, (∀ item ∈ items, item.Fits s) →
      (∀ item ∈ items, ∀ id, .node id ∈ item.entries → given id) → Unused given s →
      Grows given s (c.attemptItems items path index) fun s' ids =>
        ∀ id ∈ ids, Supplied given s' id
  | [], path, index, s, hf, hn, hu => .pure (by simp)
  | item :: rest, path, index, s, hf, hn, hu => by
    rw [attemptItems]
    refine (attempt_grows c item _ (hf item List.mem_cons_self)
      (hn item List.mem_cons_self) hu).bind fun id s' hg hid => ?_
    refine (attemptItems_grows c rest path (index + 1)
      (fun i hm => (hf i (List.mem_cons_of_mem _ hm)).extend hg.extends_)
      (fun i hm => hn i (List.mem_cons_of_mem _ hm)) (hu.growth hg)).bind fun ids s'' hg' hids => ?_
    refine .pure fun other hm => ?_
    rcases List.mem_cons.1 hm with rfl | hm
    · exact ⟨hg'.extends_.has hid.1, hid.2⟩
    · exact hids other hm

theorem attemptFields_grows (c : Compiler) : ∀ (fields : List (String × Config)) (path : Path)
    {s : Store}, (∀ field ∈ fields, field.2.Fits s) →
      (∀ field ∈ fields, ∀ id, .node id ∈ field.2.entries → given id) → Unused given s →
      Grows given s (c.attemptFields fields path) fun s' data =>
        ∀ field ∈ data, Supplied given s' field.2
  | [], path, s, hf, hn, hu => .pure (by simp)
  | (name, entry) :: rest, path, s, hf, hn, hu => by
    have hf' : ∀ field ∈ rest, field.2.Fits s := fun f hm => hf f (List.mem_cons_of_mem _ hm)
    have hn' : ∀ field ∈ rest, ∀ id, .node id ∈ field.2.entries → given id := fun f hm =>
      hn f (List.mem_cons_of_mem _ hm)
    cases hv : entry.isValidation with
    | true =>
      obtain ⟨target, rfl⟩ := (isValidation_iff entry).1 hv
      rw [attemptFields]
      exact attemptFields_grows c rest path hf' hn' hu
    | false =>
      rw [attemptFields_cons c name hv]
      refine (attempt_grows c entry _ (hf (name, entry) List.mem_cons_self)
        (hn (name, entry) List.mem_cons_self) hu).bind fun id s' hg hid => ?_
      refine (attemptFields_grows c rest path (fun f hm => (hf' f hm).extend hg.extends_) hn'
        (hu.growth hg)).bind fun data s'' hg' hdata => ?_
      refine .pure fun field hm => ?_
      rcases List.mem_cons.1 hm with rfl | hm
      · exact ⟨hg'.extends_.has hid.1, hid.2⟩
      · exact hdata field hm

end

theorem growth_of_attempt (c : Compiler) {config : Config} (hf : config.Fits s) (path : Path) :
    Growth (fun _ => True) s (c.attempt config path s).2 :=
  (c.attempt_grows config path hf (fun _ _ => trivial) fun _ _ => trivial).1

end Compiler

end StateTree
