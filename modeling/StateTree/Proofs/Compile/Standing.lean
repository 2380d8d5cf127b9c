import StateTree.Proofs.Compile.Layout

/-
  Which nodes stand for an entry. `Stands c s config id` says of the node `id`, and of all that
  was built below it, what the layouts of the entries ask for: the default of a scalar, the items
  of a list, the arranged fields of a composite, and for each of its validations the node that
  `find` leads to from the finished composite. One segment of a path
  leads from a node that stands for an entry to a node that stands for the entry below it, or
  there is neither (`Stands.child`).
-/

namespace StateTree.Compiler

open Config Store

variable {c : Compiler} {s s' : Store} {config : Config} {id : NodeId}

/-- If the entry is a validation, the child is one too, of the node that its path leads to. -/
def Wired (s : Store) (id : NodeId) (entry : Config) (child : NodeId) : Prop :=
  ∀ path, entry = .validates path →
    ∃ target, s.node? child = some (.validation target) ∧ s.find id path = .ok target

inductive Stands (c : Compiler) (s : Store) : Config → NodeId → Prop
  | shared {config : Config} {id : NodeId} (hl : c.layout config = .shared id) :
      Stands c s config id
  | scalar {config : Config} {id : NodeId} {d : Declaration} (hl : c.layout config = .scalar d)
      (hn : s.node? id = some (.scalar (.ofDeclaration d))) : Stands c s config id
  | list {config : Config} {id : NodeId} {items : List Config} {ids : List NodeId}
      (hl : c.layout config = .list items) (hn : s.node? id = some (.list ids))
      (hlen : ids.length = items.length) (hi : ∀ p ∈ items.zip ids, Stands c s p.1 p.2) :
      Stands c s config id
  | record {config : Config} {id : NodeId} {fields : List (String × Config)}
      {nodes : Fields NodeId} (hl : c.layout config = .record fields)
      (hn : s.node? id = some (.composite nodes)) (hnames : nodes.names = (arranged fields).names)
      (hi : ∀ p ∈ (arranged fields).zip nodes, Stands c s p.1.2 p.2.2)
      (hw : ∀ p ∈ (arranged fields).zip nodes, Wired s id p.1.2 p.2.2) : Stands c s config id
  | check {config : Config} {id target : NodeId} {path : Path}
      (hl : c.layout config = .detached path) (hn : s.node? id = some (.validation target)) :
      Stands c s config id

theorem Wired.extend {entry : Config} {child : NodeId} (h : Wired s id entry child)
    (he : s.Extends s') : Wired s' id entry child := by
  intro path hp
  obtain ⟨target, hn, hf⟩ := h path hp
  exact ⟨target, he.node?_eq hn, he.walk_ok hf⟩

theorem Stands.extend (h : Stands c s config id) (he : s.Extends s') : Stands c s' config id := by
  induction h with
  | shared hl => exact .shared hl
  | scalar hl hn => exact .scalar hl (he.node?_eq hn)
  | list hl hn hlen _ ih => exact .list hl (he.node?_eq hn) hlen ih
  | record hl hn hnames _ hw ih =>
    exact .record hl (he.node?_eq hn) hnames ih fun p hp => (hw p hp).extend he
  | check hl hn => exact .check hl (he.node?_eq hn)

/-- Nothing but the layout of an entry counts. -/
theorem Stands.of_layout_eq {config' : Config} (h : Stands c s config id)
    (hl' : c.layout config' = c.layout config) : Stands c s config' id := by
  cases h with
  | shared hl => exact .shared (hl'.trans hl)
  | scalar hl hn => exact .scalar (hl'.trans hl) hn
  | list hl hn hlen hi => exact .list (hl'.trans hl) hn hlen hi
  | record hl hn hnames hi hw => exact .record (hl'.trans hl) hn hnames hi hw
  | check hl hn => exact .check (hl'.trans hl) hn

/-! ## What stands for a layout -/

theorem Stands.shared_inv {shared : NodeId} (h : Stands c s config id)
    (hl : c.layout config = .shared shared) : id = shared := by
  cases h with
  | shared hl' => exact Layout.shared.inj (hl'.symm.trans hl)
  | _ hl' => exact Layout.noConfusion (hl'.symm.trans hl)

theorem Stands.scalar_inv {d : Declaration} (h : Stands c s config id)
    (hl : c.layout config = .scalar d) : s.node? id = some (.scalar (.ofDeclaration d)) := by
  cases h with
  | scalar hl' hn => rwa [Layout.scalar.inj (hl'.symm.trans hl)] at hn
  | _ hl' => exact Layout.noConfusion (hl'.symm.trans hl)

theorem Stands.list_inv {items : List Config} (h : Stands c s config id)
    (hl : c.layout config = .list items) :
    ∃ ids, s.node? id = some (.list ids) ∧ ids.length = items.length ∧
      ∀ p ∈ items.zip ids, Stands c s p.1 p.2 := by
  cases h with
  | list hl' hn hlen hi =>
    cases Layout.list.inj (hl'.symm.trans hl)
    exact ⟨_, hn, hlen, hi⟩
  | _ hl' => exact Layout.noConfusion (hl'.symm.trans hl)

theorem Stands.record_inv {fields : List (String × Config)} (h : Stands c s config id)
    (hl : c.layout config = .record fields) :
    ∃ nodes : Fields NodeId, s.node? id = some (.composite nodes) ∧
      nodes.names = (arranged fields).names ∧
      (∀ p ∈ (arranged fields).zip nodes, Stands c s p.1.2 p.2.2) ∧
      ∀ p ∈ (arranged fields).zip nodes, Wired s id p.1.2 p.2.2 := by
  cases h with
  | record hl' hn hnames hi hw =>
    cases Layout.record.inj (hl'.symm.trans hl)
    exact ⟨_, hn, hnames, hi, hw⟩
  | _ hl' => exact Layout.noConfusion (hl'.symm.trans hl)

theorem Stands.detached_inv {path : Path} (h : Stands c s config id)
    (hl : c.layout config = .detached path) : ∃ target, s.node? id = some (.validation target) := by
  cases h with
  | check hl' hn => exact ⟨_, hn⟩
  | _ hl' => exact Layout.noConfusion (hl'.symm.trans hl)

theorem Stands.not_incomplete (h : Stands c s config id) : c.layout config ≠ .incomplete := by
  intro hl
  cases h with
  | _ hl' => exact Layout.noConfusion (hl'.symm.trans hl)

/-- The items of a list, each with the entry that it was built for. -/
theorem Stands.items {items : List Config} (h : Stands c s config id)
    (hl : c.layout config = .list items) :
    ∃ ids, s.node? id = some (.list ids) ∧ List.Forall₂ (Stands c s) items ids := by
  obtain ⟨ids, hn, hlen, hi⟩ := h.list_inv hl
  exact ⟨ids, hn, List.forall₂_iff_zip.2 ⟨hlen.symm, fun hm => hi _ hm⟩⟩

/-- The fields of a composite, each with the entry that it was built for. -/
theorem Stands.fields {fields : List (String × Config)} (h : Stands c s config id)
    (hl : c.layout config = .record fields) :
    ∃ nodes : Fields NodeId, s.node? id = some (.composite nodes) ∧
      List.Forall₂ (fun field node => field.1 = node.1 ∧ Stands c s field.2 node.2)
        (arranged fields) nodes := by
  obtain ⟨nodes, hn, hnames, hi, -⟩ := h.record_inv hl
  exact ⟨nodes, hn, Fields.forall₂_of_zip hnames.symm hi⟩

/-! ## One segment further -/

theorem mem_zip_iff {α β : Type} {l : List α} {m : List β} {p : α × β} :
    p ∈ l.zip m ↔ ∃ i : Nat, l[i]? = some p.1 ∧ m[i]? = some p.2 := by
  rw [List.mem_iff_getElem?]
  exact exists_congr fun i => List.getElem?_zip_eq_some

def below? (c : Compiler) (s : Store) (config : Config) (segment : String) : Option Config :=
  (c.layout config).below? s segment

/-- From a node that stands for an entry, a segment leads to a node that stands for the entry
below it. Where there is no such entry, there is no node. -/
theorem Stands.child (h : Stands c s' config id) (hs : s.Closed) (he : s.Extends s')
    (hf : config.Fits s) (segment : String) :
    (∃ sub child, c.below? s config segment = some sub ∧ s'.child? id segment = some child ∧
        sub.Fits s ∧ Stands c s' sub child) ∨
      (c.below? s config segment = none ∧ s'.child? id segment = none) := by
  unfold below?
  cases hl : c.layout config with
  | shared shared =>
    rw [Layout.below?]
    have hid := h.shared_inv hl
    have hhas := hf.has shared (node_of_layout c hl)
    rw [hid, he.child? hhas]
    cases hc : s.child? shared segment with
    | none => exact Or.inr ⟨rfl, rfl⟩
    | some child =>
      exact Or.inl ⟨.node child, child, rfl, rfl, fits_node (hs.child? hc), .shared rfl⟩
  | list items =>
    rw [Layout.below?]
    obtain ⟨ids, hn, hlen, hi⟩ := h.list_inv hl
    have hchild : s'.child? id segment = (Path.index? segment).bind fun i => ids[i]? := by
      unfold child?
      rw [hn]
    rw [hchild]
    cases Path.index? segment with
    | none => exact Or.inr ⟨rfl, rfl⟩
    | some i =>
      by_cases hlt : i < items.length
      · have hx := List.getElem?_eq_getElem hlt
        have hy := List.getElem?_eq_getElem (hlen ▸ hlt)
        have hm : items[i] ∈ (c.layout config).parts := by
          rw [hl]
          exact List.getElem_mem hlt
        exact Or.inl ⟨items[i], ids[i], hx, hy, fits_of_parts hf hm,
          hi (items[i], ids[i]) (mem_zip_iff.2 ⟨i, hx, hy⟩)⟩
      · exact Or.inr ⟨List.getElem?_eq_none (Nat.le_of_not_lt hlt),
          List.getElem?_eq_none (Nat.le_of_not_lt (hlen ▸ hlt))⟩
  | record fields =>
    rw [Layout.below?]
    obtain ⟨nodes, hn, hnames, hi, -⟩ := h.record_inv hl
    have hchild : s'.child? id segment = nodes.get? segment := by
      unfold child?
      rw [hn]
    rw [hchild]
    rcases Fields.get?_zip hnames.symm segment with ⟨sub, child, hx, hy, hm⟩ | hnone
    · have hp : sub ∈ (c.layout config).parts := by
        rw [hl]
        exact List.mem_map_of_mem (mem_arranged_iff.1 (Fields.mem_of_get? hx))
      exact Or.inl ⟨sub, child, hx, hy, fits_of_parts hf hp, hi _ hm⟩
    · exact Or.inr hnone
  | scalar d =>
    refine Or.inr ⟨rfl, ?_⟩
    unfold child?
    rw [h.scalar_inv hl]
  | incomplete => exact absurd hl h.not_incomplete
  | detached path =>
    obtain ⟨target, hn⟩ := h.detached_inv hl
    refine Or.inr ⟨rfl, ?_⟩
    unfold child?
    rw [hn]

end StateTree.Compiler
