import StateTree.Proofs.Store.Growth
import StateTree.Proofs.Store.Sweeping

/-
  Records whose checks have any names. A name has one field, so the fields of the new composite are
  the given ones that no check is named after, and for each name of a check the validation that was
  added last. A validation owns nothing: once the call is over, what is only referred to is gone.
  Main statement: the validations refer to their targets from then on exactly if something else
  keeps these, such as a field of the new composite (`record_sweep`).
-/

namespace StateTree.Store

variable {s s' s₁ : Store} {id target : NodeId} {fields : Fields NodeId}
  {checks : List (String × Option NodeId)} {held : List NodeId}

/-! ## The fields of the new composite -/

/-- The composite has each field that no check is named after, and for each check that no later one
has the name of, a validation that did not exist before. -/
structure Recorded (s s' : Store) (id : NodeId) (checks : List (String × Option NodeId))
    (fields now : Fields NodeId) : Prop where
  node?_eq : s'.node? id = some (.composite now)
  kept : ∀ name, name ∉ checks.map (·.1) → now.get? name = fields.get? name
  added : ∀ front name target back, checks = front ++ (name, target) :: back →
    name ∉ back.map (·.1) → ∃ v, now.get? name = some v ∧ s.size ≤ v.index ∧
      s'.node? v = some (.validation (target.getD id))

theorem recorded_foldl (checks : List (String × Option NodeId))
    (h : s.node? id = some (.composite fields)) :
    ∃ now, Recorded s (checks.foldl (fun s v => s.addValidation id v.1 v.2) s) id checks
      fields now := by
  induction checks generalizing s fields with
  | nil => exact ⟨fields, h, fun _ _ => rfl, by simp⟩
  | cons check rest ih =>
    obtain ⟨name, target⟩ := check
    have hnode := node?_addValidation h name target
    have hsize := size_addValidation h name target
    have hid : (s.addValidation id name target).node? id =
        some (.composite (fields.insert name s.next)) := by rw [hnode, if_pos rfl]
    obtain ⟨now, hnow, hkept, hadded⟩ := ih hid
    refine ⟨now, hnow, ?_, ?_⟩
    · intro other hother
      rw [List.map_cons, List.mem_cons, not_or] at hother
      rw [hkept other hother.2, Fields.get?_insert, if_neg hother.1]
    · intro front name' target' back he hback
      cases front with
      | nil =>
        obtain ⟨⟨rfl, rfl⟩, rfl⟩ : (name = name' ∧ target = target') ∧ rest = back := by
          simpa using he
        -- The later checks have other names, and they leave the new validation as it is.
        have hne : s.next ≠ id := (ne_next (has_of_node? h)).symm
        obtain ⟨hsame, -⟩ := foldl_addValidation_frame rest hid
        have hlt : s.next.index < (s.addValidation id name target).size := by
          rw [hsize]
          exact Nat.lt_succ_self _
        refine ⟨s.next, by rw [hkept name hback, Fields.get?_insert_self], Nat.le_refl _, ?_⟩
        rw [List.foldl_cons, hsame s.next hlt hne, hnode, if_neg hne, if_pos rfl]
      | cons first front =>
        rw [List.cons_append, List.cons.injEq] at he
        obtain ⟨v, hv, hle, hn⟩ := hadded front name' target' back he.2 hback
        exact ⟨v, hv, by omega, hn⟩

theorem recorded_record (s : Store) (fields : Fields NodeId)
    (checks : List (String × Option NodeId)) :
    ∃ now, Recorded s (s.record fields checks).2 s.next checks fields now := by
  have h : (s.composite fields).2.node? s.next = some (.composite fields) := by
    rw [composite, node?_alloc, if_pos rfl]
  obtain ⟨now, hnow, hkept, hadded⟩ := recorded_foldl checks h
  refine ⟨now, hnow, hkept, ?_⟩
  intro front name target back he hback
  obtain ⟨v, hv, hle, hn⟩ := hadded front name target back he hback
  have hsize : (s.composite fields).2.size = s.size + 1 := size_alloc s _
  exact ⟨v, hv, by omega, hn⟩

theorem recorded_of_record (hs : s.Closed) (hfields : ∀ field ∈ fields, s.Has field.2)
    (h : s.record fields checks = (id, s')) :
    s.Extends s' ∧ s'.Closed ∧ ∃ now, Recorded s s' id checks fields now := by
  have hbuild : Build (fun _ => True) s (s.record fields checks).2 :=
    .record (fun field hm => ⟨hfields field hm, trivial⟩) checks
  have hrecorded := recorded_record s fields checks
  have hid : s.next = id := congrArg Prod.fst h
  rw [hid, h] at hrecorded
  rw [h] at hbuild
  exact ⟨hbuild.extends_, hbuild.closed hs, hrecorded⟩

theorem Recorded.owns {now : Fields NodeId} {name : String} {child : NodeId}
    (h : Recorded s s' id checks fields now) (hget : now.get? name = some child) :
    s'.Owns id child :=
  ⟨_, h.node?_eq, List.mem_map_of_mem (Fields.mem_of_get? hget)⟩

/-! ## After the call -/

theorem Extends.reaches_of_reaches {other : NodeId} (h : s.Extends s') (hr : s.Reaches id other) :
    s'.Reaches id other :=
  Relation.ReflTransGen.mono (fun _ _ ⟨node, hn, hm⟩ => ⟨node, h.node?_eq hn, hm⟩) _ _ hr

/-- The node is at or below a node that is held, or a field that no check is named after. -/
def Sheltered (s : Store) (fields : Fields NodeId) (checks : List (String × Option NodeId))
    (held : List NodeId) (target : NodeId) : Prop :=
  (∃ holder ∈ held, s.Reaches holder target) ∨
    ∃ name child, name ∉ checks.map (·.1) ∧ fields.get? name = some child ∧
      s.Reaches child target

/-- What is sheltered stays. -/
theorem Recorded.has_of_sheltered {now : Fields NodeId} (h : Recorded s s' id checks fields now)
    (he : s.Extends s') (ht : s.Has target) (hs : s.Sheltered fields checks held target) :
    (s'.sweep (id :: held)).Has target := by
  have hreached : ∃ holder ∈ id :: held, s'.Reaches holder target := by
    rcases hs with ⟨holder, hm, hr⟩ | ⟨name, child, hname, hget, hr⟩
    · exact ⟨holder, List.mem_cons_of_mem _ hm, he.reaches_of_reaches hr⟩
    · have ho := h.owns ((h.kept name hname).trans hget)
      exact ⟨id, List.mem_cons_self, .head ho (he.reaches_of_reaches hr)⟩
  obtain ⟨holder, hm, hr⟩ := hreached
  exact (kept_sweep hm).intact.has hr (he.has ht)

/-- A record has each given field that no check is named after, with all that is below it, and for
each check that no later one has the name of, a new validation. Once the call is over and only the
given nodes are held besides the record, the validation refers to its target exactly if that is
held, or owned by a node that is there; so it does if it was given none and refers to the record,
and if its target is sheltered. Otherwise it refers to nothing. -/
theorem record_sweep (hs : s.Closed) (hfields : ∀ field ∈ fields, s.Has field.2)
    (htargets : ∀ check ∈ checks, ∀ target ∈ check.2, s.Has target)
    (h : s.record fields checks = (id, s')) (hsweep : s'.sweep (id :: held) = s₁) :
    ∃ now, s₁.node? id = some (.composite now) ∧
      (∀ name, name ∉ checks.map (·.1) → now.get? name = fields.get? name ∧
        ∀ child, fields.get? name = some child → Kept child s s₁) ∧
      ∀ front name target back, checks = front ++ (name, target) :: back →
        name ∉ back.map (·.1) → ∃ v, now.get? name = some v ∧ s.size ≤ v.index ∧
          s₁.node? v = some (.validation (target.getD id)) ∧
          (s₁.target? v = some (target.getD id) ↔ s₁.Lasts (id :: held) (target.getD id)) ∧
          (s₁.target? v = none ↔ ¬ s₁.Lasts (id :: held) (target.getD id)) ∧
          (target = none → s₁.target? v = some id) ∧
          ∀ node, target = some node → s.Sheltered fields checks held node →
            s₁.target? v = some node := by
  subst hsweep
  obtain ⟨hext, hclosed, now, hrecorded⟩ := recorded_of_record hs hfields h
  have hkept : Kept id s' (s'.sweep (id :: held)) := kept_sweep List.mem_cons_self
  refine ⟨now, (hkept id .refl).trans hrecorded.node?_eq, ?_, ?_⟩
  · intro name hname
    have hname' := hrecorded.kept name hname
    refine ⟨hname', ?_⟩
    intro child hget
    have hchild : Kept child s s' := hext.kept hs (hfields _ (Fields.mem_of_get? hget))
    have ho := hrecorded.owns (hname'.trans hget)
    exact hchild.trans fun other hr => hkept other (.head ho hr)
  · intro front name target back he hback
    obtain ⟨v, hget, hle, hv⟩ := hrecorded.added front name target back he hback
    have hv' := (hkept v (.single (hrecorded.owns hget))).trans hv
    have hgiven : ∀ node, target = some node → s.Has node := by
      intro node hnode
      exact htargets (name, target) (by simp [he]) node hnode
    have htarget : s'.Has (target.getD id) := by
      cases target with
      | none => exact has_of_node? hrecorded.node?_eq
      | some node => exact hext.has (hgiven node rfl)
    have hrefers := target?_eq_some_iff hv'
    have hlasts := has_sweep_iff hclosed htarget (id :: held)
    refine ⟨v, hget, hle, hv', hrefers.trans hlasts,
      (target?_eq_none_iff hv').trans (not_congr hlasts), ?_, ?_⟩
    · rintro rfl
      exact hrefers.2 (hlasts.2 (Or.inl List.mem_cons_self))
    · rintro node rfl hsheltered
      exact hrefers.2 (hrecorded.has_of_sheltered hext (hgiven node rfl) hsheltered)

/-- Two scalars. -/
def pairStore : Store :=
  ⟨#[some (.scalar (.ofDeclaration (.ofSchema (.primitive .bool)))),
    some (.scalar (.ofDeclaration (.ofSchema (.primitive .string))))]⟩

/-- A record of the second scalar that validates this one, itself and the first one. -/
def checkedStore : Store :=
  ⟨pairStore.cells ++ #[some (.composite [("k", ⟨1⟩), ("v", ⟨3⟩), ("self", ⟨4⟩), ("x", ⟨5⟩)]),
    some (.validation ⟨1⟩), some (.validation ⟨2⟩), some (.validation ⟨0⟩)]⟩

theorem closed_pairStore : pairStore.Closed := fun id node hn child hm => by
  obtain ⟨i⟩ := id
  match i with
  | 0 => cases hn; simp [Node.children] at hm
  | 1 => cases hn; simp [Node.children] at hm
  | i + 2 => simp [node?, pairStore] at hn

theorem record_sweep_pair :
    pairStore.record [("k", ⟨1⟩)] [("v", some ⟨1⟩), ("self", none), ("x", some ⟨0⟩)] =
        (⟨2⟩, checkedStore) ∧
      ∃ now, (checkedStore.sweep [⟨2⟩]).node? ⟨2⟩ = some (.composite now) ∧
        now.get? "k" = some ⟨1⟩ ∧
        (∃ v, now.get? "v" = some v ∧ (checkedStore.sweep [⟨2⟩]).target? v = some ⟨1⟩) ∧
        (∃ v, now.get? "self" = some v ∧ (checkedStore.sweep [⟨2⟩]).target? v = some ⟨2⟩) ∧
        ∃ v, now.get? "x" = some v ∧ (checkedStore.sweep [⟨2⟩]).target? v = none := by
  have hrecord : pairStore.record [("k", ⟨1⟩)]
      [("v", some ⟨1⟩), ("self", none), ("x", some ⟨0⟩)] = (⟨2⟩, checkedStore) := rfl
  obtain ⟨now, hnow, hkept, hadded⟩ := record_sweep closed_pairStore
    (by simp [Has, node?, pairStore]) (by simp [Has, node?, pairStore]) hrecord
    (rfl : checkedStore.sweep [⟨2⟩] = checkedStore.sweep [⟨2⟩])
  have hsheltered : pairStore.Sheltered [("k", ⟨1⟩)]
      [("v", some ⟨1⟩), ("self", none), ("x", some ⟨0⟩)] [] ⟨1⟩ :=
    Or.inr ⟨"k", ⟨1⟩, by simp, rfl, .refl⟩
  obtain ⟨v, hv, -, -, -, -, -, htarget⟩ := hadded [] "v" (some ⟨1⟩) _ rfl (by simp)
  obtain ⟨v', hv', -, -, -, -, hself, -⟩ := hadded [_] "self" none _ rfl (by simp)
  obtain ⟨v'', hv'', -, -, -, hnone, -, -⟩ := hadded [_, _] "x" (some ⟨0⟩) _ rfl (by simp)
  refine ⟨hrecord, now, hnow, (hkept "k" (by simp)).1, ⟨v, hv, htarget ⟨1⟩ rfl hsheltered⟩,
    ⟨v', hv', hself rfl⟩, v'', hv'', hnone.2 ?_⟩
  -- The first scalar was referred to, but neither held nor owned.
  rintro (hm | ho)
  · simp at hm
  · exact absurd (isOwned_iff.2 ho) (by decide)

/-- What only the list of checks holds on to does not outlast the call, and then the validation
refers to nothing. A check named after a field takes its place, and the node of the field is gone;
so does a check named after an earlier one. -/
theorem record_releases_target :
    pairStore.Has ⟨0⟩ ∧
      (∃ s', pairStore.record [("k", ⟨1⟩)] [("v", some ⟨0⟩)] = (⟨2⟩, s') ∧
        (s'.sweep [⟨2⟩]).node? ⟨2⟩ = some (.composite [("k", ⟨1⟩), ("v", ⟨3⟩)]) ∧
        (s'.sweep [⟨2⟩]).node? ⟨3⟩ = some (.validation ⟨0⟩) ∧
        (s'.sweep [⟨2⟩]).target? ⟨3⟩ = none) ∧
      (∃ s', pairStore.record [("k", ⟨1⟩)] [("k", none)] = (⟨2⟩, s') ∧
        (s'.sweep [⟨2⟩]).node? ⟨2⟩ = some (.composite [("k", ⟨3⟩)]) ∧
        (s'.sweep [⟨2⟩]).target? ⟨3⟩ = some ⟨2⟩ ∧ ¬(s'.sweep [⟨2⟩]).Has ⟨1⟩) ∧
      ∃ s', pairStore.record [("k", ⟨1⟩)] [("v", some ⟨1⟩), ("v", none)] = (⟨2⟩, s') ∧
        (s'.sweep [⟨2⟩]).node? ⟨2⟩ = some (.composite [("k", ⟨1⟩), ("v", ⟨4⟩)]) ∧
        (s'.sweep [⟨2⟩]).target? ⟨4⟩ = some ⟨2⟩ ∧ ¬(s'.sweep [⟨2⟩]).Has ⟨3⟩ :=
  ⟨rfl, ⟨_, rfl, rfl, rfl, rfl⟩, ⟨_, rfl, rfl, rfl, Bool.false_ne_true⟩, _, rfl, rfl, rfl,
    Bool.false_ne_true⟩

end StateTree.Store
