import StateTree.Proofs.Compile.Building
import StateTree.Proofs.Store.Snapshot

/-
  Literals. Whatever inference settles at once, and whatever is taken apart, the nodes of a literal
  carry that literal. Main statement: every literal can be compiled, and the snapshot of its node
  is the literal again, up to the classes of instances that were taken apart
  (`compile_literal_value`).
-/

namespace StateTree

namespace Inference

/-- What is inferred from a literal starts with that literal. -/
theorem initialValue_of_ofValue? {inference : Inference} {v : Value} {d : Declaration}
    (h : inference.ofValue? v = some d) : Slot.initialValue d = v := by
  have hsettled : ∀ p, Slot.initialValue (.settled p v) = v := fun p => rfl
  cases v with
  | object fields =>
    simp only [ofValue?] at h
    split at h
    · exact Option.some.inj h ▸ hsettled _
    · split at h
      · exact Option.some.inj h ▸ hsettled _
      · simp at h
  | instanceOf className fields =>
    simp only [ofValue?] at h
    split at h
    · exact Option.some.inj h ▸ hsettled _
    · unfold ofInstance? at h
      cases hi : inference.instances with
      | instanceOf =>
        simp only [hi] at h
        obtain ⟨d', -, rfl⟩ := Option.map_eq_some_iff.1 h
        rfl
      | expand =>
        simp only [hi] at h
        split at h
        · exact Option.some.inj h ▸ hsettled _
        · simp at h
  | null => exact Option.some.inj h ▸ rfl
  | _ => exact Option.some.inj h ▸ hsettled _

theorem initialValue_of_ofConfig? {inference : Inference} {config : Config} {v : Value}
    {d : Declaration} (h : inference.ofConfig? config = some d) (hv : config.toLiteral? = some v) :
    Slot.initialValue d = v := by
  unfold ofConfig? at h
  split at h
  · next w =>
    rw [initialValue_of_ofValue? h]
    exact Option.some.inj hv
  · obtain ⟨w, hw, rfl⟩ := Option.map_eq_some_iff.1 h
    exact Option.some.inj (hw.symm.trans hv)
  · cases Option.some.inj h
    exact Option.some.inj hv
  · simp at h

end Inference

namespace Compiler

open Config Store Value

variable {c : Compiler} {s : Store} {config : Config} {id : NodeId} {v : Value}

theorem ofValue?_of_scalarOfValue? {d : Declaration} (h : c.scalarOfValue? v = some d) :
    c.inference.ofValue? v = some d := by
  unfold scalarOfValue? at h
  split at h
  · simp at h
  · simp at h
  · exact h

theorem ofConfig?_of_scalarOf? {d : Declaration} (h : c.scalarOf? config = some d) :
    c.inference.ofConfig? config = some d := by
  unfold scalarOf? at h
  split at h
  · simp at h
  · exact h

/-- An entry that is settled as one scalar spells a literal. -/
theorem toLiteral?_of_scalarOf? {d : Declaration} (h : c.scalarOf? config = some d) :
    ∃ v, config.toLiteral? = some v := by
  have hi := ofConfig?_of_scalarOf? h
  unfold Inference.ofConfig? at hi
  split at hi
  · next v => exact ⟨v, by rw [toLiteral?]⟩
  · obtain ⟨v, hv, -⟩ := Option.map_eq_some_iff.1 hi
    exact ⟨v, hv⟩
  · exact ⟨.object [], rfl⟩
  · simp at hi

/-- What becomes of an entry that spells a literal. -/
theorem layout_of_toLiteral? (c : Compiler) (h : config.toLiteral? = some v) :
    (∃ d, c.layout config = .scalar d ∧ Slot.initialValue d = v) ∨
      (∃ items vs, c.layout config = .list items ∧ literalItems? items = some vs ∧
        v = .array vs) ∨
      ∃ fields vs, c.layout config = .record fields ∧ literalFields? fields = some vs ∧
        (v = .object vs ∨ ∃ className, v = .instanceOf className vs) := by
  have hinv := toLiteral?_inv h
  rcases hinv with rfl | ⟨items, vs, rfl, hvs, rfl⟩ | ⟨fields, vs, rfl, hvs, rfl⟩
  · rw [layout]
    cases hd : c.scalarOfValue? v with
    | some d =>
      have hi := ofValue?_of_scalarOfValue? hd
      exact Or.inl ⟨d, rfl, Inference.initialValue_of_ofValue? hi⟩
    | none =>
      cases v with
      | array vs => exact Or.inr (Or.inl ⟨_, vs, rfl, literalItems?_literal vs, rfl⟩)
      | object vs => exact Or.inr (Or.inr ⟨_, vs, rfl, literalFields?_literal vs, Or.inl rfl⟩)
      | instanceOf className vs =>
        exact Or.inr (Or.inr ⟨_, vs, rfl, literalFields?_literal vs, Or.inr ⟨className, rfl⟩⟩)
      | _ => exact Or.inl ⟨_, rfl, rfl⟩
  · rw [layout]
    cases hd : c.scalarOf? (.sequence items) with
    | some d =>
      have hi := ofConfig?_of_scalarOf? hd
      exact Or.inl ⟨d, rfl, Inference.initialValue_of_ofConfig? hi h⟩
    | none => exact Or.inr (Or.inl ⟨items, vs, rfl, hvs, rfl⟩)
  · rw [layout]
    cases hd : c.scalarOf? (.record fields) with
    | some d =>
      have hi := ofConfig?_of_scalarOf? hd
      exact Or.inl ⟨d, rfl, Inference.initialValue_of_ofConfig? hi h⟩
    | none => exact Or.inr (Or.inr ⟨fields, vs, rfl, hvs, Or.inl rfl⟩)

/-- No validation stands for a literal. -/
theorem Stands.isValidation_of_literal (h : Stands c s config id)
    (hv : config.toLiteral? = some v) : s.isValidation id = false := by
  unfold Store.isValidation
  rcases c.layout_of_toLiteral? hv with ⟨d, hl, -⟩ | ⟨items, vs, hl, -⟩ | ⟨fields, vs, hl, -⟩
  · rw [h.scalar_inv hl]
  · obtain ⟨ids, hn, -⟩ := h.list_inv hl
    rw [hn]
  · obtain ⟨nodes, hn, -⟩ := h.record_inv hl
    rw [hn]

theorem value?_of_items {items : List NodeId} {vs : List Value}
    (hn : s.node? id = some (.list items))
    (h : List.Forall₂ (fun item v => ∃ w, s.value? item = some w ∧ Carries w v) items vs) :
    ∃ w, s.value? id = some w ∧ Carries w (.array vs) := by
  obtain ⟨ws, hws, hall⟩ := mapM_of_forall₂ h
  exact ⟨.array ws, by rw [value?_list hn, hws]; rfl, carries_array hall⟩

theorem value?_of_fields {nodes : Fields NodeId} {vs : List (String × Value)}
    (hn : s.node? id = some (.composite nodes))
    (h : List.Forall₂ (fun node v => node.1 = v.1 ∧ s.isValidation node.2 = false ∧
      ∃ w, s.value? node.2 = some w ∧ Carries w v.2) nodes vs) :
    ∃ ws, s.value? id = some (.object ws) ∧
      List.Forall₂ (fun w v => w.1 = v.1 ∧ Carries w.2 v.2) ws vs := by
  have hdata : s.dataOf nodes = nodes := List.filter_eq_self.2 fun node hm => by
    obtain ⟨v, -, hv, -⟩ := exists_of_forall₂ h hm
    rw [hv]
    rfl
  have hvalues : List.Forall₂ (fun (node : String × NodeId) (v : String × Value) =>
      ∃ w, (s.value? node.2).map (node.1, ·) = some w ∧ w.1 = v.1 ∧ Carries w.2 v.2) nodes vs :=
    h.imp fun node v hone => by
      obtain ⟨hname, -, w, hw, hc⟩ := hone
      exact ⟨(node.1, w), by rw [hw]; rfl, hname, hc⟩
  obtain ⟨ws, hws, hall⟩ := mapM_of_forall₂ hvalues
  exact ⟨ws, by rw [value?_composite hn, hdata, hws]; rfl, hall⟩

/-- What stands for a literal carries it. -/
theorem Stands.carries (h : Stands c s config id) (hv : config.toLiteral? = some v) :
    ∃ w, s.value? id = some w ∧ Carries w v := by
  induction config using c.layout_induction generalizing id v with
  | step config ih =>
    rcases c.layout_of_toLiteral? hv with
      ⟨d, hl, rfl⟩ | ⟨items, vs, hl, hvs, rfl⟩ | ⟨fields, vs, hl, hvs, hclass⟩
    · exact ⟨_, value?_scalar (h.scalar_inv hl), .refl _⟩
    · rw [hl] at ih
      obtain ⟨ids, hn, hstands⟩ := h.items hl
      exact value?_of_items hn (forall₂_of_forall₂ hstands (forall₂_of_literalItems? hvs)
        fun item hm id v hone hv => ih item hm hone hv)
    · rw [hl] at ih
      obtain ⟨nodes, hn, hstands⟩ := h.fields hl
      rw [arranged_of_literalFields? hvs] at hstands
      obtain ⟨ws, hws, hall⟩ := value?_of_fields hn (forall₂_of_forall₂ hstands
        (forall₂_of_literalFields? hvs) fun field hm node v hone hv =>
          ⟨hone.1.symm.trans hv.1, hone.2.isValidation_of_literal hv.2,
            ih field.2 (List.mem_map_of_mem hm) hone.2 hv.2⟩)
      rcases hclass with rfl | ⟨className, rfl⟩
      · exact ⟨_, hws, carries_object hall⟩
      · exact ⟨_, hws, carries_instanceOf className hall⟩

/-- A literal can be compiled whatever the settings, and the snapshot of its node is the literal
again once instances count as the objects of their fields. If it holds none, it is the very
literal. -/
theorem compile_literal_value (c : Compiler) (v : Value) (s : Store) :
    ∃ id s' w, c.compile (.literal v) s = .ok (id, s') ∧ s'.value? id = some w ∧
      w.plain = v.plain ∧ (v.instanceFree = true → w = v) := by
  have hb : c.compile (.literal v) s = .ok (c.place v s) := by rw [compile, build]
  have hone := c.build_spec (.literal v) (fits_literal v s) hb
  obtain ⟨w, hw, hc⟩ := hone.stands.carries rfl
  exact ⟨_, _, w, hb, hw, hc.plain_eq, hc.eq_of_free⟩

end Compiler

end StateTree
