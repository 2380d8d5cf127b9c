import StateTree.Proofs.Compile.Setting
import StateTree.Proofs.Compile.Slots
import StateTree.Proofs.Store.Resetting

/-
  Resetting and disconnecting. Main statement: where ownership has no rings, each of the two gives
  the scalars that it is for their defaults again and leaves all else as it is; done twice it does
  no more than done once, and with the other before or after it, a reset stays what it is. A tree
  that is compiled, with whatever has been done to it since, is taken back by a reset to the
  snapshot that it had when it was new (`reset_restores`).
-/

namespace StateTree

namespace Store

variable {s s' : Store} {root : NodeId}

/-- Resetting and disconnecting, and what the two do to each other. -/
theorem restores_reset_disconnect (htree : (s.tree? root).isSome) :
    ∃ s₁ s₂, s.reset? root = some s₁ ∧ s.disconnect? root = some s₂ ∧
      Restores root (fun _ => true) s s₁ ∧ Restores root (·.resetOnDisconnect) s s₂ ∧
      s₁.reset? root = some s₁ ∧ s₂.disconnect? root = some s₂ ∧
      s₂.reset? root = some s₁ ∧ s₁.disconnect? root = some s₁ := by
  obtain ⟨s₁, hreset, hall⟩ := exists_restores (s := s) (fun _ => true) htree
  obtain ⟨s₂, hdisconnect, hsome⟩ := exists_restores (s := s) (·.resetOnDisconnect) htree
  refine ⟨s₁, s₂, hreset, hdisconnect, hall, hsome, ?_⟩
  simp only [reset?_eq, disconnect?_eq]
  refine ⟨?_, ?_, ?_, ?_⟩
  · exact hall.walk_again htree (hall.congr fun _ => rfl)
  · exact hsome.walk_again htree (hsome.congr fun _ => (Bool.or_self _).symm)
  · exact hsome.walk_again htree (hall.congr fun _ => (Bool.or_true _).symm)
  · exact hall.walk_again htree (hall.congr fun _ => (Bool.true_or _).symm)

end Store

namespace Compiler

open Store Config

variable {c : Compiler} {config : Config} {s s' s₁ : Store} {root : NodeId}

/-- In a tree that has just been compiled from an entry without nodes, every scalar holds its
default. -/
theorem reset_of_compile (hs : s.Closed) (hf : config.Fits s) (hnode : config.NodeFree)
    (h : c.compile config s = .ok (root, s')) :
    ∀ id slot, s'.Reaches root id → s'.slot? id = some slot → slot.reset = slot := by
  intro id slot hr hslot
  have hnew := (c.fresh_build config hs hf hnode h).new id hr
  obtain ⟨d, -, rfl⟩ := (addsInitial_build c config _ _ _ _ h id slot hslot).resolve_left
    (by simp [slot?_of_size_le hnew])
  rfl

/-- A reset undoes all that a program has done to the values of a compiled tree. -/
theorem value?_reset_of_run (hs : s.Closed) (hf : config.Fits s) (hnode : config.NodeFree)
    (h : c.compile config s = .ok (root, s')) (hrun : Run root s' s₁) :
    ∃ s₂ v, s₁.reset? root = some s₂ ∧ s'.value? root = some v ∧ s₂.value? root = some v := by
  obtain ⟨hs₁, hroot₁, ht₁⟩ := ownsTree_of_run hs hf hnode h hrun
  obtain ⟨s₂, -, hreset, -, hall, -⟩ :=
    restores_reset_disconnect ((isSome_tree?_iff hs₁).2 ⟨hroot₁, ht₁.acc⟩)
  have hkept : Kept root s' s₂ :=
    hall.kept (intact_of_run hrun) (reset_of_compile hs hf hnode h)
  obtain ⟨hs', hroot', ht'⟩ := ownsTree_of_run hs hf hnode h .refl
  obtain ⟨t, ht⟩ := Option.isSome_iff_exists.1 ((isSome_tree?_iff hs').2 ⟨hroot', ht'.acc⟩)
  have hv : s'.value? root = some t.value := by rw [value?, ht]; rfl
  exact ⟨s₂, t.value, hreset, hv, hkept.value?.trans hv⟩

/-- Resetting a node without rings below it gives every scalar that it owns, directly or not, its
default again, null if there is none, and changes no other node; disconnecting does the same for
those scalars that are declared to lose their value. Neither does more when it is done again, and
whichever of the two comes first, both together do what a reset does. What is compiled from an
entry without nodes gets back the snapshot that it had when it was new, whatever has been set,
reset, disconnected or let go in the meantime. -/
theorem reset_restores :
    (∀ (s : Store) (id : NodeId), s.Closed → s.Has id → s.AcyclicBelow id →
      ∃ s₁ s₂, s.reset? id = some s₁ ∧ s.disconnect? id = some s₂ ∧
        Restores id (fun _ => true) s s₁ ∧ Restores id (·.resetOnDisconnect) s s₂ ∧
        s₁.reset? id = some s₁ ∧ s₂.disconnect? id = some s₂ ∧
        s₂.reset? id = some s₁ ∧ s₁.disconnect? id = some s₁) ∧
    ∀ (c : Compiler) (config : Config) (s s' s₁ : Store) (root : NodeId), s.Closed →
      config.Fits s → config.NodeFree → c.compile config s = .ok (root, s') → Run root s' s₁ →
        ∃ s₂ v, s₁.reset? root = some s₂ ∧ s'.value? root = some v ∧
          s₂.value? root = some v := by
  constructor
  · intro s id hs hid ha
    exact restores_reset_disconnect ((isSome_tree?_iff hs).2 ⟨hid, ha.acc hs⟩)
  · intro c config s s' s₁ root hs hf hnode h hrun
    exact value?_reset_of_run hs hf hnode h hrun

/-- A password and a name, which two lists share, and a validation of a hint that is not in the
tree. The root is the last one. -/
def accountStore : Store :=
  ⟨#[some (.scalar (.ofDeclaration .password)),
    some (.scalar (.ofDeclaration (.settled .string (.string "guest")))),
    some (.scalar (.ofDeclaration (.settled .string (.string "none")))), some (.validation ⟨2⟩),
    some (.list [⟨0⟩, ⟨1⟩, ⟨0⟩]), some (.list [⟨4⟩, ⟨1⟩, ⟨3⟩])]⟩

theorem growth_accountStore : Growth (fun _ => True) ∅ accountStore := by
  have hscalars : Growth (fun _ => True) ∅
      (scalar (scalar (scalar ∅ .password).2 (.settled .string (.string "guest"))).2
        (.settled .string (.string "none"))).2 :=
    .tail (.tail (.single (.scalar _)) (.scalar _)) (.scalar _)
  refine ((hscalars.tail (.validation ⟨2⟩)).tail (.list ?_)).tail (.list ?_)
  all_goals
    simp only [List.forall_mem_cons, List.not_mem_nil, false_implies, implies_true, and_true]
    exact ⟨rfl, rfl, rfl⟩

/-- The same store with other values. -/
def usedStore : Store :=
  ((accountStore.assign ⟨0⟩ (.string "s3cret")).assign ⟨1⟩ (.string "ada")).assign ⟨2⟩ (.string "x")

theorem outline?_usedStore (id : NodeId) : usedStore.outline? id = accountStore.outline? id := by
  rw [usedStore, outline?_assign, outline?_assign, outline?_assign]

theorem reset_restores_account :
    usedStore.Closed ∧ usedStore.Has ⟨5⟩ ∧ usedStore.AcyclicBelow ⟨5⟩ ∧
      (∃ s₁ s₂, usedStore.reset? ⟨5⟩ = some s₁ ∧ usedStore.disconnect? ⟨5⟩ = some s₂ ∧
        s₁.slot? ⟨1⟩ = some (.ofDeclaration (.settled .string (.string "guest"))) ∧
        s₁.node? ⟨2⟩ = usedStore.node? ⟨2⟩ ∧
        s₂.slot? ⟨0⟩ = some (.ofDeclaration .password) ∧ s₂.node? ⟨1⟩ = usedStore.node? ⟨1⟩ ∧
        s₂.reset? ⟨5⟩ = some s₁) ∧
      standard.compile loginConfig ∅ = .ok (⟨2⟩, loginStore) ∧ loginConfig.Fits ∅ ∧
      loginConfig.NodeFree ∧ Run ⟨2⟩ loginStore (loginStore.assign ⟨1⟩ (.string "s3cret")) ∧
      ∃ s₂ v, (loginStore.assign ⟨1⟩ (.string "s3cret")).reset? ⟨2⟩ = some s₂ ∧
        loginStore.value? ⟨2⟩ = some v ∧ s₂.value? ⟨2⟩ = some v := by
  have hs : usedStore.Closed :=
    closed_of_outline? outline?_usedStore (growth_accountStore.closed closed_empty)
  have ha : usedStore.AcyclicBelow ⟨5⟩ := fun id _ =>
    (growth_accountStore.acyclic closed_empty acyclic_empty).of_owns
      (fun _ _ => (owns_iff_of_outline? outline?_usedStore).1) id
  have hid : usedStore.Has ⟨5⟩ := rfl
  have hlist : usedStore.Owns ⟨5⟩ ⟨4⟩ := ⟨_, rfl, by simp [Node.children]⟩
  have hsecret : usedStore.Reaches ⟨5⟩ ⟨0⟩ :=
    .head hlist (.single ⟨_, rfl, by simp [Node.children]⟩)
  have hname : usedStore.Reaches ⟨5⟩ ⟨1⟩ := .single ⟨_, rfl, by simp [Node.children]⟩
  have hfree : usedStore.isOwned ⟨2⟩ = false := rfl
  have hhint : ¬ usedStore.Reaches ⟨5⟩ ⟨2⟩ := fun hr => by
    rcases hr.cases_tail with e | ⟨parent, -, ho⟩
    · cases e
    · rw [isOwned_of_owns ho] at hfree
      cases hfree
  have hf : loginConfig.Fits ∅ := by decide
  have hnode : loginConfig.NodeFree := by simp [loginConfig, NodeFree, entries, fieldEntries]
  have hc : standard.compile loginConfig ∅ = .ok (⟨2⟩, loginStore) := rfl
  have hrun : Run ⟨2⟩ loginStore (loginStore.assign ⟨1⟩ (.string "s3cret")) :=
    .single (.assign ⟨1⟩ _)
  obtain ⟨s₁, s₂, hreset, hdisconnect, hall, hsome, -, -, hagain, -⟩ :=
    reset_restores.1 usedStore ⟨5⟩ hs hid ha
  refine ⟨hs, hid, ha, ⟨s₁, s₂, hreset, hdisconnect, hall.restored ⟨1⟩ _ hname rfl rfl,
    hall.node_eq ⟨2⟩ fun _ hr => absurd hr hhint, hsome.restored ⟨0⟩ _ hsecret rfl rfl,
    hsome.node_eq ⟨1⟩ fun slot _ hslot => ?_, hagain⟩, hc, hf, hnode, hrun,
    reset_restores.2 _ _ _ _ _ _ closed_empty hf hnode hc hrun⟩
  cases hslot
  exact Bool.false_ne_true

end Compiler

end StateTree
