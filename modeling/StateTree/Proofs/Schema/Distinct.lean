import Mathlib.Data.List.Induction
import StateTree.Proofs.Schema.Same

/-
  Lists of types without repetition, and unions of them. The types that are left after leaving out
  repetitions differ pairwise in both directions (`pairwise_distinct`), and each of the others
  equals one of them (`exists_same_distinct`). Of any types there are some left, so the one check
  that a union makes, that it is not of nothing, never fails for the items of an array
  (`exists_unify`).
-/

namespace StateTree

namespace Schema

/-! ## Lists without repetition -/

theorem distinct_append (types : List Schema) (t : Schema) :
    distinct (types ++ [t]) =
      if (distinct types).any (·.same t) then distinct types else distinct types ++ [t] := by
  rw [distinct, List.foldl_append]
  rfl

theorem distinct_sublist (types : List Schema) : (distinct types).Sublist types := by
  induction types using List.reverseRecOn with
  | nil => exact .slnil
  | append_singleton types t ih =>
    rw [distinct_append]
    split
    · exact ih.trans (List.sublist_append_left types [t])
    · exact ih.append (.refl [t])

/-- Leaving out repetitions leaves out nothing else. -/
theorem mem_or_same_of_mem {types : List Schema} {t : Schema} (h : t ∈ types) :
    t ∈ distinct types ∨ ∃ u ∈ distinct types, u.same t = true := by
  induction types using List.reverseRecOn with
  | nil => exact absurd h List.not_mem_nil
  | append_singleton types last ih =>
    rw [List.mem_append, List.mem_singleton] at h
    rw [distinct_append]
    split
    · next hold =>
      rcases h with h | rfl
      · exact ih h
      · exact Or.inr (List.any_eq_true.1 hold)
    · rcases h with h | rfl
      · exact (ih h).imp (List.mem_append_left _) fun ⟨u, hu, hsame⟩ =>
          ⟨u, List.mem_append_left _ hu, hsame⟩
      · exact Or.inl (List.mem_append_right _ (List.mem_singleton_self t))

theorem exists_same_distinct {types : List Schema} (h : ∀ t ∈ types, t.All NamesDistinct)
    {t : Schema} (hm : t ∈ types) :
    ∃ u ∈ distinct types, u.same t = true ∧ t.same u = true := by
  have hsub := (distinct_sublist types).subset
  rcases mem_or_same_of_mem hm with hkept | ⟨u, hu, hsame⟩
  · exact ⟨t, hkept, same_self (h t hm), same_self (h t hm)⟩
  · exact ⟨u, hu, hsame, (same_comm (h t hm) (h u (hsub hu))).trans hsame⟩

theorem distinct_ne_nil {types : List Schema} (h : types ≠ []) : distinct types ≠ [] := by
  obtain ⟨t, ht⟩ := List.exists_mem_of_ne_nil types h
  rcases mem_or_same_of_mem ht with hm | ⟨u, hm, -⟩
  · exact List.ne_nil_of_mem hm
  · exact List.ne_nil_of_mem hm

/-- No type that is left repeats an earlier one. -/
theorem pairwise_same_distinct (types : List Schema) :
    (distinct types).Pairwise fun t u => t.same u = false := by
  induction types using List.reverseRecOn with
  | nil => exact .nil
  | append_singleton types t ih =>
    rw [distinct_append]
    split
    · exact ih
    · next hnew =>
      refine List.pairwise_append.2 ⟨ih, List.pairwise_singleton _ _, fun u hu v hv => ?_⟩
      rw [List.mem_singleton.1 hv]
      exact Bool.eq_false_iff.2 fun hsame => hnew (List.any_eq_true.2 ⟨u, hu, hsame⟩)

/-- Any two of the types that are left differ, whichever is compared with the other. -/
theorem pairwise_distinct {types : List Schema} (h : ∀ t ∈ types, t.All NamesDistinct) :
    (distinct types).Pairwise fun t u => t.same u = false ∧ u.same t = false := by
  refine (pairwise_same_distinct types).imp_of_mem fun {t u} ht hu hne => ⟨hne, ?_⟩
  have hsub := distinct_sublist types
  rw [same_comm (h u (hsub.subset hu)) (h t (hsub.subset ht)), hne]

/-- Types of which no later one repeats an earlier one are all kept. -/
theorem distinct_of_pairwise {types : List Schema}
    (h : types.Pairwise fun t u => t.same u = false) : distinct types = types := by
  induction types using List.reverseRecOn with
  | nil => rfl
  | append_singleton types t ih =>
    rw [List.pairwise_append] at h
    rw [distinct_append, ih h.1, if_neg]
    intro hold
    obtain ⟨u, hu, hsame⟩ := List.any_eq_true.1 hold
    rw [h.2.2 u hu t (List.mem_singleton_self t)] at hsame
    exact Bool.false_ne_true hsame

/-- Leaving out repetitions twice leaves out no more than doing so once. -/
theorem distinct_distinct (types : List Schema) : distinct (distinct types) = distinct types :=
  distinct_of_pairwise (pairwise_same_distinct types)

/-! ## Unions -/

section Unions

variable {types : List Schema} {t : Schema}

theorem oneOf?_eq_ok (hne : types ≠ []) :
    oneOf? types = .ok (ofKind (.oneOf (distinct types))) := by
  rw [oneOf?, if_neg (by simpa using hne)]

theorem oneOf?_distinct (hne : types ≠ []) : oneOf? (distinct types) = oneOf? types := by
  rw [oneOf?_eq_ok hne, oneOf?_eq_ok (distinct_ne_nil hne), distinct_distinct]

theorem unify_nil : unify [] = .ok (primitive .any) := rfl

theorem unify_of_agree (h : distinct types = [t]) : unify types = .ok t := by
  have hne : types ≠ [] := by
    rintro rfl
    cases h
  rw [unify, if_neg (by simpa using hne), h]

/-- Of types that differ there is a union, for the first of them is never left out. -/
theorem unify_of_differ (hne : types ≠ []) (h : (distinct types).length ≠ 1) :
    unify types = .ok (ofKind (.oneOf (distinct types))) := by
  rw [unify, if_neg (by simpa using hne)]
  split
  · next u hone => simp [hone] at h
  · rw [oneOf?_distinct hne, oneOf?_eq_ok hne]

/-- Items of any types have one in common: any type, the one they agree on, or their union. -/
theorem unify_cases (types : List Schema) :
    (types = [] ∧ unify types = .ok (primitive .any)) ∨
      (∃ t, distinct types = [t] ∧ unify types = .ok t) ∨
      (types ≠ [] ∧ (distinct types).length ≠ 1 ∧
        unify types = .ok (ofKind (.oneOf (distinct types)))) := by
  by_cases hne : types = []
  · exact Or.inl ⟨hne, hne ▸ unify_nil⟩
  · by_cases hone : (distinct types).length = 1
    · obtain ⟨t, ht⟩ := List.length_eq_one_iff.1 hone
      exact Or.inr (Or.inl ⟨t, ht, unify_of_agree ht⟩)
    · exact Or.inr (Or.inr ⟨hne, hone, unify_of_differ hne hone⟩)

/-- Nothing can go wrong with the type that items have in common: the union that is made of what is
left of them is never one of nothing. -/
theorem exists_unify (types : List Schema) : ∃ t, unify types = .ok t := by
  rcases unify_cases types with ⟨-, h⟩ | ⟨t, -, h⟩ | ⟨-, -, h⟩ <;> exact ⟨_, h⟩

end Unions

end Schema

end StateTree
