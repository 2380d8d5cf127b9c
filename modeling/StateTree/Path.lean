/-
  Paths through a state tree: names and list positions joined by slashes. Empty segments count
  for nothing, so a path may begin or end with a slash, or double one, without meaning anything
  else. Main statement: the segments of `join parent child` are those of `parent`, then those of
  `child`.
-/

namespace StateTree

abbrev Path := String

namespace Path

/-- The path of the node at the top. -/
def root : Path := "/"

/-- The text before the first slash, and the texts after each slash. -/
def pieces : List Char → List Char × List (List Char)
  | [] => ([], [])
  | c :: rest =>
    if c = '/' then ([], (pieces rest).1 :: (pieces rest).2)
    else (c :: (pieces rest).1, (pieces rest).2)

/-- The names a path goes through, from the outside in. -/
def segments (path : Path) : List String :=
  (((pieces path.toList).1 :: (pieces path.toList).2).filter (· ≠ [])).map String.ofList

/-- The list position that a segment names: a plain decimal number, leading zeros allowed. There is
no largest one, for a number beyond the items of a list names none of them, just as a text that is
no number (`Store.child?_of_list`). -/
def index? (segment : String) : Option Nat :=
  if segment.toList ≠ [] ∧ segment.toList.all Char.isDigit then
    some (Nat.ofDigitChars 10 segment.toList 0)
  else none

/-- The path of a child. Below the top it is the child's own segment. -/
def join (parent : Path) (child : String) : Path :=
  if parent = "" ∨ parent = root then child else parent ++ "/" ++ child

/-! ## Segments of joined paths -/

theorem pieces_append_slash (front back : List Char) :
    pieces (front ++ '/' :: back) =
      ((pieces front).1, (pieces front).2 ++ (pieces back).1 :: (pieces back).2) := by
  induction front with
  | nil => simp [pieces]
  | cons c rest ih => by_cases h : c = '/' <;> simp [pieces, h, ih]

theorem segments_append_slash (front back : String) :
    segments (front ++ "/" ++ back) = segments front ++ segments back := by
  have h : (front ++ "/" ++ back).toList = front.toList ++ '/' :: back.toList := by simp
  unfold segments
  rw [h, pieces_append_slash]
  simp [List.filter_cons, List.filter_append]
  split <;> simp

theorem segments_empty : segments "" = [] := by decide

theorem segments_root : segments root = [] := by decide

theorem segments_join (parent : Path) (child : String) :
    segments (join parent child) = segments parent ++ segments child := by
  unfold join
  split
  · next h =>
    rcases h with h | h
    · simp [h, segments_empty]
    · simp [h, segments_root]
  · exact segments_append_slash parent child

end Path

end StateTree
