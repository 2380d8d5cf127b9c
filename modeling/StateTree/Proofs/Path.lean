import Mathlib.Data.List.Induction
import StateTree.Path

/-
  The path of an entry, given the steps from the top of its configuration. The compiler joins them
  one by one, and the segments of the path are those of all steps (`segments_ofSteps_flatMap`). If
  every step is the text of one segment, the path is the steps with slashes between them
  (`ofSteps_eq`), and its segments are the steps again (`segments_ofSteps`).
-/

namespace StateTree.Path

def ofSteps (steps : List String) : Path := steps.foldl join root

theorem join_ofSteps (steps : List String) (step : String) :
    join (ofSteps steps) step = ofSteps (steps ++ [step]) := by
  unfold ofSteps
  rw [List.foldl_append]
  rfl

/-- The pieces are what splitting the text at every slash gives. -/
theorem pieces_eq_splitOn (cs : List Char) :
    (pieces cs).1 :: (pieces cs).2 = cs.splitOn '/' := by
  unfold List.splitOn
  induction cs with
  | nil => rfl
  | cons c rest ih =>
    rw [List.splitOnP_cons_eq_if_modifyHead, ← ih, pieces]
    by_cases h : c = '/' <;> simp [h]

theorem segments_eq_splitOn (path : Path) :
    segments path = ((path.toList.splitOn '/').filter (· ≠ [])).map String.ofList := by
  rw [segments, pieces_eq_splitOn]

/-- Joining step by step collects the segments of the steps, whatever slashes they hold. -/
theorem segments_ofSteps_flatMap (steps : List String) :
    segments (ofSteps steps) = steps.flatMap segments := by
  induction steps using List.reverseRecOn with
  | nil => exact segments_root
  | append_singleton front last ih =>
    rw [← join_ofSteps, segments_join, ih, List.flatMap_append, List.flatMap_singleton]

/-- The text is one segment: it is not empty, and it holds no slash. -/
def IsSegment (text : String) : Prop := text ≠ "" ∧ '/' ∉ text.toList

theorem pieces_of_not_mem {cs : List Char} (h : '/' ∉ cs) : pieces cs = (cs, []) := by
  induction cs with
  | nil => rfl
  | cons c rest ih =>
    rw [List.mem_cons, not_or] at h
    rw [pieces, if_neg (Ne.symm h.1), ih h.2]

theorem IsSegment.segments {text : String} (h : IsSegment text) :
    Path.segments text = [text] := by
  have hne : text.toList ≠ [] := fun e => h.1 (String.toList_eq_nil_iff.1 e)
  unfold Path.segments
  rw [pieces_of_not_mem h.2]
  simp [hne]

/-- A list position is one segment. -/
theorem isSegment_toString (n : Nat) : IsSegment (toString n) := by
  have htext : (toString n).toList = Nat.toDigits 10 n := by simp
  refine ⟨fun e => ?_, fun hm => ?_⟩
  · have hnil : Nat.toDigits 10 n = [] := by rw [← htext, e]; rfl
    exact absurd hnil Nat.toDigits_ne_nil
  · rw [htext] at hm
    have hd := Nat.isDigit_of_mem_toDigits (by decide) (by decide) hm
    simp at hd

/-- A list position is the number that its text names. -/
theorem index?_toString (n : Nat) : index? (toString n) = some n := by
  have htext : (toString n).toList = Nat.toDigits 10 n := by simp
  have hdigits : (Nat.toDigits 10 n).all Char.isDigit := List.all_eq_true.2 fun _ hm =>
    Nat.isDigit_of_mem_toDigits (by decide) (by decide) hm
  rw [index?, htext, if_pos ⟨Nat.toDigits_ne_nil, hdigits⟩, Nat.ofDigitChars_ten_toDigits]

theorem segments_ofSteps {steps : List String} (h : ∀ step ∈ steps, IsSegment step) :
    segments (ofSteps steps) = steps := by
  rw [segments_ofSteps_flatMap, List.flatMap_def,
    List.map_congr_left fun step hm => (h step hm).segments, ← List.flatMap_def]
  exact List.flatMap_singleton' steps

/-- Steps that are one segment each are joined by slashes. -/
theorem ofSteps_eq {steps : List String} (h : ∀ step ∈ steps, IsSegment step)
    (hne : steps ≠ []) : ofSteps steps = "/".intercalate steps := by
  induction steps using List.reverseRecOn with
  | nil => exact absurd rfl hne
  | append_singleton front last ih =>
    rw [← join_ofSteps]
    have hfront : ∀ step ∈ front, IsSegment step := fun step hm =>
      h step (List.mem_append_left _ hm)
    by_cases hnil : front = []
    · subst hnil
      rw [List.nil_append, String.intercalate_singleton]
      exact if_pos (Or.inr rfl)
    · -- What is joined so far has segments, so it is neither empty nor the path of the top.
      have hsegments := segments_ofSteps hfront
      have htop : ¬(ofSteps front = "" ∨ ofSteps front = root) := by
        rintro (e | e)
        · rw [e, segments_empty] at hsegments
          exact hnil hsegments.symm
        · rw [e, segments_root] at hsegments
          exact hnil hsegments.symm
      rw [join, if_neg htop, ih hfront hnil,
        String.intercalate_append_of_ne_nil hnil (List.cons_ne_nil _ _),
        String.intercalate_singleton]

/-- Segments are what is left between slashes once empty texts are dropped. Those of a joined path
are the segments of the parent and then those of the child, also where one of them is empty or
holds slashes of its own. So a path that is joined from the top has the segments of all its steps,
and these are the steps themselves if each is one segment. -/
theorem segments_joined :
    (∀ path, segments path = ((path.toList.splitOn '/').filter (· ≠ [])).map String.ofList) ∧
      (∀ parent child, segments (join parent child) = segments parent ++ segments child) ∧
      (∀ steps, segments (ofSteps steps) = steps.flatMap segments) ∧
      ∀ steps, (∀ step ∈ steps, IsSegment step) → segments (ofSteps steps) = steps :=
  ⟨segments_eq_splitOn, segments_join, segments_ofSteps_flatMap, fun _ h => segments_ofSteps h⟩

/-- The same three names as steps of their own and in steps with slashes anywhere. -/
theorem segments_joined_slashes :
    (∀ step ∈ ["a", "0", "b"], IsSegment step) ∧
      segments (ofSteps ["a", "0", "b"]) = ["a", "0", "b"] ∧
      segments (ofSteps ["", "/a/", "/", "0//b"]) = ["a", "0", "b"] := by
  have hsteps : ∀ step ∈ ["a", "0", "b"], IsSegment step := by simp [IsSegment]
  obtain ⟨-, -, hflat, hone⟩ := segments_joined
  refine ⟨hsteps, hone _ hsteps, ?_⟩
  rw [hflat]
  decide

end StateTree.Path
