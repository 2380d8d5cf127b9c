import StateTree.Proofs.Compile.Building
import StateTree.Proofs.Compile.Literal
import StateTree.Proofs.Store.Run

/-
  The scalars that compiling creates. A scalar comes from a declaration among the entries or from
  one that is inferred, and either way the declaration is usable (`isUsable_of_layout`): if it is
  required, it has a default. The slot of a new scalar starts with that default, and no later call
  changes how it was declared (`compile_slots`).
-/

namespace StateTree

/-- As a usable declaration makes it. -/
def Slot.IsInitial (slot : Slot) : Prop :=
  ∃ d : Declaration, d.isUsable = true ∧ slot = .ofDeclaration d

/-! ## Inferred declarations -/

namespace Inference

variable {inference : Inference} {d : Declaration}

theorem isUsable_settled (p : Primitive) (v : Value) : (Declaration.settled p v).isUsable = true :=
  rfl

theorem isUsable_defaultsTo (d : Declaration) (v : Value) : (d.defaultsTo v).isUsable = true := by
  simp [Declaration.isUsable, Declaration.defaultsTo]

theorem isUsable_of_ofInstance? {className : String} {fields : Fields Value}
    (h : inference.ofInstance? className fields = some d) : d.isUsable = true := by
  unfold ofInstance? at h
  cases hi : inference.instances with
  | instanceOf =>
    simp only [hi] at h
    obtain ⟨d', -, rfl⟩ := Option.map_eq_some_iff.1 h
    exact isUsable_defaultsTo d' _
  | expand =>
    simp only [hi] at h
    split at h
    · exact Option.some.inj h ▸ isUsable_settled _ _
    · simp at h

/-- What is inferred from a literal has that literal as its default, but for null, from which a
type is inferred that is not required. -/
theorem isUsable_of_ofValue? {v : Value} (h : inference.ofValue? v = some d) :
    d.isUsable = true := by
  cases v with
  | null => exact Option.some.inj h ▸ rfl
  | object fields =>
    simp only [ofValue?] at h
    split at h
    · exact Option.some.inj h ▸ isUsable_settled _ _
    · split at h
      · exact Option.some.inj h ▸ isUsable_settled _ _
      · simp at h
  | instanceOf className fields =>
    simp only [ofValue?] at h
    split at h
    · exact Option.some.inj h ▸ isUsable_settled _ _
    · exact isUsable_of_ofInstance? h
  | _ => exact Option.some.inj h ▸ isUsable_settled _ _

theorem isUsable_of_ofConfig? {config : Config} (h : inference.ofConfig? config = some d) :
    d.isUsable = true := by
  unfold ofConfig? at h
  split at h
  · exact isUsable_of_ofValue? h
  · obtain ⟨v, -, rfl⟩ := Option.map_eq_some_iff.1 h
    exact isUsable_settled _ _
  · exact Option.some.inj h ▸ isUsable_settled _ _
  · simp at h

end Inference

/-! ## Slots of a store that grows -/

namespace Store

variable {s : Store} {id other : NodeId}

theorem slot?_of_node? {s' : Store} (h : s'.node? id = s.node? id) : s'.slot? id = s.slot? id := by
  unfold slot?
  rw [h]

theorem slot?_of_size_le (h : s.size ≤ id.index) : s.slot? id = none := by
  have hnone : s.node? id = none :=
    Option.not_isSome_iff_eq_none.1 fun hhas => Nat.not_lt.2 h (index_lt_size hhas)
  unfold slot?
  rw [hnone]

theorem slot?_next (s : Store) : s.slot? s.next = none := slot?_of_size_le (Nat.le_refl _)

/-- A new node that is no scalar adds no slot. -/
theorem slot?_alloc {node : Node} (h : ∀ slot, node ≠ .scalar slot) (id : NodeId) :
    (s.alloc node).2.slot? id = s.slot? id := by
  by_cases e : id = s.next
  · rw [e, slot?_next, slot?, node?_alloc, if_pos rfl]
    cases node with
    | scalar slot => exact absurd rfl (h slot)
    | _ => rfl
  · exact slot?_of_node? (by rw [node?_alloc, if_neg e])

theorem slot?_scalar (s : Store) (d : Declaration) (id : NodeId) :
    (s.scalar d).2.slot? id = if id = s.next then some (.ofDeclaration d) else s.slot? id := by
  split
  · next e => rw [e, scalar, slot?, node?_alloc, if_pos rfl]
  · next e => exact slot?_of_node? (by rw [scalar, node?_alloc, if_neg e])

theorem slot?_addValidation {fields : Fields NodeId} (h : s.node? id = some (.composite fields))
    (name : String) (target : Option NodeId) (other : NodeId) :
    (s.addValidation id name target).slot? other = s.slot? other := by
  have hnode := node?_addValidation h name target other
  by_cases hid : other = id
  · rw [slot?, slot?, hnode, if_pos hid, hid, h]
  · rw [if_neg hid] at hnode
    by_cases hnext : other = s.next
    · rw [hnext, slot?_next, slot?, ← hnext, hnode, if_pos hnext]
    · rw [if_neg hnext] at hnode
      exact slot?_of_node? hnode

theorem slot?_foldl_addValidation (checks : List (String × Option NodeId))
    {fields : Fields NodeId} (h : s.node? id = some (.composite fields)) (other : NodeId) :
    (checks.foldl (fun s v => s.addValidation id v.1 v.2) s).slot? other = s.slot? other := by
  induction checks generalizing s fields with
  | nil => rfl
  | cons check rest ih =>
    obtain ⟨name, target⟩ := check
    have hid : (s.addValidation id name target).node? id =
        some (.composite (fields.insert name s.next)) := by
      rw [node?_addValidation h, if_pos rfl]
    rw [List.foldl_cons, ih hid, slot?_addValidation h]

/-- A record adds no slots to those of its fields. -/
theorem slot?_record (s : Store) (data : Fields NodeId) (checks : List (String × Option NodeId))
    (id : NodeId) : (s.record data checks).2.slot? id = s.slot? id := by
  have hn : (s.composite data).2.node? s.next = some (.composite data) := by
    rw [composite, node?_alloc, if_pos rfl]
  exact (slot?_foldl_addValidation checks hn id).trans (slot?_alloc (by simp) id)

end Store

/-! ## Building -/

namespace Compiler

open Config Store

variable {c : Compiler} {s s' s'' : Store} {config : Config} {root id : NodeId}

theorem isUsable_of_layout (c : Compiler) : ∀ {config : Config} {d : Declaration},
    c.layout config = .scalar d → d.isUsable = true
  | .scalar d', d, h => by
    rw [layout] at h
    split at h
    · next husable => exact Layout.scalar.inj h ▸ husable
    · simp at h
  | .shape inner required, d, h => by
    rw [layout] at h
    exact isUsable_of_layout c h
  | .sequence items, d, h => by
    rw [layout] at h
    split at h
    · next hd =>
      exact Layout.scalar.inj h ▸ Inference.isUsable_of_ofConfig? (ofConfig?_of_scalarOf? hd)
    · simp at h
  | .record fields, d, h => by
    rw [layout] at h
    split at h
    · next hd =>
      exact Layout.scalar.inj h ▸ Inference.isUsable_of_ofConfig? (ofConfig?_of_scalarOf? hd)
    · simp at h
  | .literal v, d, h => by
    rw [layout] at h
    split at h
    · next hd =>
      exact Layout.scalar.inj h ▸ Inference.isUsable_of_ofValue? (ofValue?_of_scalarOfValue? hd)
    · cases v with
      | array items => simp [opened] at h
      | object fields => simp [opened] at h
      | instanceOf className fields => simp [opened] at h
      | _ => exact Layout.scalar.inj h ▸ Inference.isUsable_defaultsTo _ _
  | .node _, _, h => by simp [layout] at h
  | .pending _, _, h => by simp [layout] at h
  | .validates _, _, h => by simp [layout] at h

/-- A slot of the second store is one of the first, or as a usable declaration makes it. -/
def AddsInitial (s s' : Store) : Prop :=
  ∀ id slot, s'.slot? id = some slot → s.slot? id = some slot ∨ slot.IsInitial

theorem AddsInitial.of_slot?_eq (h : ∀ id, s'.slot? id = s.slot? id) : AddsInitial s s' :=
  fun id _ hslot => Or.inl (h id ▸ hslot)

theorem AddsInitial.trans (h : AddsInitial s s') (h' : AddsInitial s' s'') : AddsInitial s s'' :=
  fun id slot hslot => (h' id slot hslot).elim (h id slot) Or.inr

theorem addsInitial_scalar {d : Declaration} (hd : d.isUsable = true) (s : Store) :
    AddsInitial s (s.scalar d).2 := by
  intro id slot hslot
  rw [slot?_scalar] at hslot
  split at hslot
  · exact Or.inr ⟨d, hd, (Option.some.inj hslot).symm⟩
  · exact Or.inl hslot

theorem addsInitial_buildItems {items : List Config} {path : Path} {index : Nat}
    {ids : List NodeId}
    (hitem : ∀ item ∈ items, ∀ path s s' id, c.build item path s = .ok (id, s') → AddsInitial s s')
    (h : c.buildItems items path index s = .ok (ids, s')) : AddsInitial s s' := by
  induction items generalizing s index ids with
  | nil =>
    cases Except.ok.inj h
    exact .of_slot?_eq fun _ => rfl
  | cons item rest ih =>
    rw [buildItems] at h
    obtain ⟨⟨id, s₁⟩, hb, h⟩ := bind_eq_ok.1 h
    obtain ⟨⟨ids', s₂⟩, hbs, h⟩ := bind_eq_ok.1 h
    cases Except.ok.inj h
    exact (hitem item List.mem_cons_self _ _ _ _ hb).trans
      (ih (fun i hm => hitem i (List.mem_cons_of_mem _ hm)) hbs)

theorem addsInitial_buildFields {fields : List (String × Config)} {path : Path}
    {data : Fields NodeId}
    (hfield : ∀ field ∈ fields, ∀ path s s' id,
      c.build field.2 path s = .ok (id, s') → AddsInitial s s')
    (h : c.buildFields fields path s = .ok (data, s')) : AddsInitial s s' := by
  induction fields generalizing s data with
  | nil =>
    cases Except.ok.inj h
    exact .of_slot?_eq fun _ => rfl
  | cons field rest ih =>
    obtain ⟨name, entry⟩ := field
    have hrest := fun f hm => hfield f (List.mem_cons_of_mem _ hm)
    cases hv : entry.isValidation with
    | true =>
      obtain ⟨target, rfl⟩ := (isValidation_iff entry).1 hv
      rw [buildFields] at h
      exact ih hrest h
    | false =>
      rw [buildFields_cons c name hv] at h
      obtain ⟨⟨id, s₁⟩, hb, h⟩ := bind_eq_ok.1 h
      obtain ⟨⟨ids', s₂⟩, hbs, h⟩ := bind_eq_ok.1 h
      cases Except.ok.inj h
      exact (hfield _ List.mem_cons_self _ _ _ _ hb).trans (ih hrest hbs)

/-- Whatever is built, the slots that it adds hold the defaults of usable declarations. -/
theorem addsInitial_build (c : Compiler) (config : Config) : ∀ path s s' id,
    c.build config path s = .ok (id, s') → AddsInitial s s' := by
  induction config using c.layout_induction with
  | step config ih =>
    intro path s s' id h
    rw [build_eq] at h
    cases hl : c.layout config with
    | shared shared =>
      rw [hl] at h
      cases Except.ok.inj h
      exact .of_slot?_eq fun _ => rfl
    | scalar d =>
      rw [hl] at h
      cases Except.ok.inj h
      exact addsInitial_scalar (c.isUsable_of_layout hl) s
    | list items =>
      rw [hl] at h ih
      obtain ⟨⟨ids, s₁⟩, hb, h⟩ := bind_eq_ok.1 h
      cases Except.ok.inj h
      exact (addsInitial_buildItems ih hb).trans (.of_slot?_eq (slot?_alloc (by simp)))
    | record fields =>
      rw [hl] at h ih
      obtain ⟨⟨data, s₁⟩, hb, h⟩ := bind_eq_ok.1 h
      obtain ⟨targets, -, h⟩ := bind_eq_ok.1 h
      cases Except.ok.inj h
      exact (addsInitial_buildFields (fun field hm => ih field.2 (List.mem_map_of_mem hm)) hb).trans
        (.of_slot?_eq (slot?_record s₁ data targets))
    | incomplete => simp [hl, assemble] at h
    | detached path => simp [hl, assemble] at h

/-- Every scalar of a compiled tree that is new has a default if it is required, and holds its
default, or null if it has none. Whatever a program does that holds on to the tree, the scalar
stays declared as it was. -/
theorem compile_slots (h : c.compile config s = .ok (root, s')) :
    ∀ id slot, s'.Reaches root id → s.size ≤ id.index → s'.slot? id = some slot →
      (slot.declaration.schema.required = true → slot.declaration.default?.isSome = true) ∧
      slot.value = slot.declaration.default?.getD .null ∧
      ∀ s'', Run root s' s'' →
        ∃ slot', s''.slot? id = some slot' ∧ slot'.declaration = slot.declaration := by
  intro id slot hr hnew hslot
  obtain ⟨d, hd, rfl⟩ := (addsInitial_build c config _ _ _ _ h id slot hslot).resolve_left
    (by simp [slot?_of_size_le hnew])
  refine ⟨fun hreq => ?_, rfl, fun s'' hrun => ?_⟩
  · have hreq' : d.schema.required = true := hreq
    rw [Declaration.isUsable, hreq'] at hd
    exact hd
  · exact (intact_of_run hrun).slot? hr (node?_of_slot? hslot)

/-- A required name with a default, and a password, which has none and is not required. -/
def loginConfig : Config :=
  .record [("user", .scalar (.settled .string (.string "guest"))), ("secret", .scalar .password)]

/-- What `loginConfig` is compiled to. -/
def loginStore : Store :=
  ⟨#[some (.scalar (.ofDeclaration (.settled .string (.string "guest")))),
    some (.scalar (.ofDeclaration .password)),
    some (.composite [("user", ⟨0⟩), ("secret", ⟨1⟩)])]⟩

theorem compile_slots_login :
    standard.compile loginConfig ∅ = .ok (⟨2⟩, loginStore) ∧ loginStore.Reaches ⟨2⟩ ⟨0⟩ ∧
      loginStore.slot? ⟨0⟩ = some (.ofDeclaration (.settled .string (.string "guest"))) ∧
      Run ⟨2⟩ loginStore ((loginStore.assign ⟨0⟩ .null).sweep [⟨2⟩]) ∧
      ∃ slot, ((loginStore.assign ⟨0⟩ .null).sweep [⟨2⟩]).slot? ⟨0⟩ = some slot ∧
        slot.declaration = .settled .string (.string "guest") := by
  have hc : standard.compile loginConfig ∅ = .ok (⟨2⟩, loginStore) := rfl
  have hr : loginStore.Reaches ⟨2⟩ ⟨0⟩ := .single ⟨_, rfl, List.mem_cons_self⟩
  have hslot : loginStore.slot? ⟨0⟩ =
      some (.ofDeclaration (.settled .string (.string "guest"))) := rfl
  have hrun : Run ⟨2⟩ loginStore ((loginStore.assign ⟨0⟩ .null).sweep [⟨2⟩]) :=
    .tail (.single (.assign ⟨0⟩ .null)) (.sweep (by simp))
  obtain ⟨-, -, hkept⟩ := compile_slots hc ⟨0⟩ _ hr (Nat.zero_le _) hslot
  exact ⟨hc, hr, hslot, hrun, hkept _ hrun⟩

end Compiler

end StateTree
