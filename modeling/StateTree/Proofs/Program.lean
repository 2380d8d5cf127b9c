import StateTree.Inspect
import StateTree.Proofs.Compile.Attempt
import StateTree.Proofs.Store.Acyclic
import StateTree.Proofs.Store.Locality

/-
  Programs. A program starts without nodes, and compiles, builds, inserts, sets, resets,
  disconnects and lets go of nodes in any order. As long as it inserts no node below itself, no node
  owns itself and every node can be read (`acyclic_of_session`). Nothing else keeps rings out: an
  insertion is carried out as it is, and one of a composite into itself leaves a node of which no
  snapshot, reset, disconnection or inspection comes to an end (`session_closes_ring`).
-/

namespace StateTree

open Relation

variable {allowed : Store → NodeId → NodeId → Prop} {s s' : Store}

/-- What a program may do next. `allowed` says of an insertion in a store whether a composite may
take a child. -/
inductive Operation (allowed : Store → NodeId → NodeId → Prop) (s : Store) : Store → Prop
  /-- Compiles an entry. Where that fails, what was built so far is left over. -/
  | compile (c : Compiler) {config : Config} (hf : config.Fits s) :
      Operation allowed s (c.attempt config Path.root s).2
  | build {s' : Store} (h : Store.Build (fun _ => True) s s') : Operation allowed s s'
  | insert {id child : NodeId} {fields : Fields NodeId} (name : String)
      (hid : s.node? id = some (.composite fields)) (hchild : s.Has child)
      (h : allowed s id child) : Operation allowed s (s.insertField id name child)
  | call {id : NodeId} {s' : Store} (h : Store.Call id s s') : Operation allowed s s'
  /-- Lets go of all nodes but some, and what nobody holds or owns any more is removed. -/
  | release (held : List NodeId) : Operation allowed s (s.sweep held)

abbrev Session (allowed : Store → NodeId → NodeId → Prop) : Store → Store → Prop :=
  ReflTransGen (Operation allowed)

/-- The child does not lead back to the composite. -/
def Ringless (s : Store) (id child : NodeId) : Prop := ¬ s.Reaches child id

/-- Every operation that goes through what a node owns comes to an end. -/
structure Readable (s : Store) (id : NodeId) : Prop where
  value : (s.value? id).isSome
  reset : (s.reset? id).isSome
  disconnect : (s.disconnect? id).isSome
  inspect : (s.inspect? id).isSome

theorem readable_of_tree? {id : NodeId} (h : (s.tree? id).isSome) : Readable s id where
  value := by rwa [Store.value?, Option.isSome_map]
  reset := by rwa [Store.reset?, Option.isSome_map]
  disconnect := by rwa [Store.disconnect?, Option.isSome_map]
  inspect := by rwa [Store.inspect?, Option.isSome_map]

/-! ## One operation -/

/-- A successful compilation is an operation. -/
theorem operation_of_compile {c : Compiler} {config : Config} {root : NodeId} (hf : config.Fits s)
    (h : c.compile config s = .ok (root, s')) : Operation allowed s s' := by
  rw [Compiler.compile_eq_ok] at h
  have hop : Operation allowed s (c.attempt config Path.root s).2 := .compile c hf
  rwa [h] at hop

theorem Operation.closed (h : Operation allowed s s') (hs : s.Closed) : s'.Closed := by
  cases h with
  | compile c hf => exact (c.growth_of_attempt hf Path.root).closed hs
  | build h => exact h.closed hs
  | insert name hid hchild _ => exact hs.insertField hchild
  | @call id _ h => exact (h.step id).closed hs
  | release held => exact hs.sweepWithin held s.size

theorem Operation.acyclic (h : Operation Ringless s s') (hs : s.Closed) (ha : s.Acyclic) :
    s'.Acyclic := by
  cases h with
  | compile c hf => exact (c.growth_of_attempt hf Path.root).acyclic hs ha
  | build h => exact h.acyclic hs ha
  | insert name hid _ hring => exact (Store.acyclic_insertField_iff ha hid name _).2 hring
  | call h => exact ha.of_owns fun _ _ ho => (Store.owns_iff_of_outline? h.outline?).1 ho
  | release held => exact ha.sweepWithin held s.size

/-! ## Sessions -/

theorem Session.closed (h : Session allowed ∅ s) : s.Closed := by
  induction h with
  | refl => exact Store.closed_empty
  | tail _ hop ih => exact hop.closed ih

theorem Session.acyclic (h : Session Ringless ∅ s) : s.Acyclic := by
  induction h with
  | refl => exact Store.acyclic_empty
  | tail hsession hop ih => exact hop.acyclic (Session.closed hsession) ih

/-- A program that inserts no node below itself can read every node at any time; and that is all
that it has to heed, since any other insertion closes a ring. -/
theorem acyclic_of_session (h : Session Ringless ∅ s) :
    s.Acyclic ∧ (∀ id, s.Has id → Readable s id) ∧
      ∀ id fields name child, s.node? id = some (.composite fields) →
        ((s.insertField id name child).Acyclic ↔ Ringless s id child) :=
  have ha := h.acyclic
  ⟨ha, fun _ hid => readable_of_tree? (ha.isSome_tree? h.closed hid),
    fun _ _ name child hn => Store.acyclic_insertField_iff ha hn name child⟩

/-- What a record of one value that validates itself is compiled to. -/
def recordStore : Store :=
  ⟨#[some (.scalar (.ofDeclaration (.settled .bool (.bool true)))),
    some (.composite [("on", ⟨0⟩), ("self", ⟨2⟩)]), some (.validation ⟨1⟩)]⟩

/-- A composite over that record, and over its value once more. -/
def sharedStore : Store := (recordStore.record [("tree", ⟨1⟩)] []).2.insertField ⟨3⟩ "on" ⟨0⟩

theorem acyclic_of_session_shared :
    Session Ringless ∅ sharedStore ∧ sharedStore.Acyclic ∧ Readable sharedStore ⟨3⟩ ∧
      ¬ (sharedStore.insertField ⟨1⟩ "up" ⟨3⟩).Acyclic := by
  have hcompile : Compiler.standard.compile
      (.record [("on", .literal (.bool true)), ("self", .validates "")]) ∅ =
        .ok (⟨1⟩, recordStore) := rfl
  have hbuild : Store.Build (fun _ => True) recordStore (recordStore.record [("tree", ⟨1⟩)] []).2 :=
    .record (fun _ hm => List.mem_singleton.1 hm ▸ ⟨rfl, trivial⟩) []
  have hring : Ringless (recordStore.record [("tree", ⟨1⟩)] []).2 ⟨3⟩ ⟨0⟩ := fun hr => by
    rcases hr.cases_head with h | ⟨child, ⟨node, hn, hm⟩, -⟩
    · cases h
    · cases hn
      simp [Node.children] at hm
  have h : Session Ringless ∅ sharedStore :=
    .tail (.tail (.single (operation_of_compile (by decide) hcompile)) (.build hbuild))
      (.insert "on" rfl rfl hring)
  obtain ⟨ha, hread, hclosed⟩ := acyclic_of_session h
  refine ⟨h, ha, hread ⟨3⟩ rfl, fun hnew => ?_⟩
  have hr : sharedStore.Reaches ⟨3⟩ ⟨1⟩ := .single ⟨_, rfl, List.mem_cons_self⟩
  exact (hclosed ⟨1⟩ _ "up" ⟨3⟩ rfl).1 hnew hr

/-- A composite inserted into itself. -/
def ringStore : Store := ⟨#[some (.composite [("a", ⟨0⟩)])]⟩

/-- If a program may insert any node anywhere, a node may come to own itself, and then reading it
does not come to an end. -/
theorem session_closes_ring :
    Session (fun _ _ _ => True) ∅ ringStore ∧ ¬ ringStore.Acyclic ∧ ringStore.Has ⟨0⟩ ∧
      ringStore.value? ⟨0⟩ = none ∧ ringStore.reset? ⟨0⟩ = none ∧
      ringStore.disconnect? ⟨0⟩ = none ∧ ringStore.inspect? ⟨0⟩ = none := by
  have hbuild : Operation (fun _ _ _ => True) ∅ (Store.record ∅ [] []).2 :=
    .build (.record (by simp) [])
  have hid : (Store.record ∅ [] []).2.node? ⟨0⟩ = some (.composite []) := rfl
  have hinsert : Operation (fun _ _ _ => True) (Store.record ∅ [] []).2 ringStore :=
    .insert "a" hid rfl trivial
  have hown : ringStore.Owns ⟨0⟩ ⟨0⟩ := ⟨_, rfl, List.mem_cons_self⟩
  exact ⟨.tail (.single hbuild) hinsert, fun h => h ⟨0⟩ (.single hown), rfl, rfl, rfl, rfl, rfl⟩

end StateTree
