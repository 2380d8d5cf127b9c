import StateTree.Json.Numeral
import StateTree.Json.Quoted

/-
  Tokens of JSON text. Blanks between tokens are skipped. Text that begins no token gives one bad
  token, and nothing is read after it.
-/

namespace StateTree.Json

inductive Token
  | openArray
  | closeArray
  | openObject
  | closeObject
  | comma
  | colon
  | null
  | bool (b : Bool)
  | number (n : Numeral)
  | string (s : String)
  | bad

namespace Token

def isBlank (c : Char) : Bool := c = ' ' || c = '\t' || c = '\n' || c = '\r'

/-- The token at the front of a text that does not begin with a blank, and what follows it. -/
def first? : List Char → Option (Token × List Char)
  | [] => none
  | '[' :: rest => some (.openArray, rest)
  | ']' :: rest => some (.closeArray, rest)
  | '{' :: rest => some (.openObject, rest)
  | '}' :: rest => some (.closeObject, rest)
  | ',' :: rest => some (.comma, rest)
  | ':' :: rest => some (.colon, rest)
  | 'n' :: 'u' :: 'l' :: 'l' :: rest => some (.null, rest)
  | 't' :: 'r' :: 'u' :: 'e' :: rest => some (.bool true, rest)
  | 'f' :: 'a' :: 'l' :: 's' :: 'e' :: rest => some (.bool false, rest)
  | '"' :: rest =>
    match Quoted.decode? rest with
    | some (s, rest) => some (.string s, rest)
    | none => some (.bad, [])
  | c :: rest =>
    match Numeral.read? (c :: rest) with
    | some (n, rest) => some (.number n, rest)
    | none => some (.bad, [])

theorem first?_length {cs rest : List Char} {t : Token} (h : first? cs = some (t, rest)) :
    rest.length < cs.length := by
  unfold first? at h
  split at h
  case h_11 tail =>
    split at h
    · next s r hs =>
      simp at h
      have := Quoted.decode?_length hs
      rw [← h.2]
      simp only [List.length_cons]
      omega
    · simp at h
      simp [h.2]
  case h_12 c tail _ _ _ _ _ _ _ _ _ _ =>
    split at h
    · next n r hn =>
      simp at h
      exact h.2 ▸ Numeral.read?_length hn
    · simp at h
      simp [h.2]
  all_goals
    simp at h
    try simp [← h.2]
    try omega

/-- All tokens of a text. -/
def scan (cs : List Char) : List Token :=
  match _h : first? (cs.dropWhile isBlank) with
  | none => []
  | some (t, rest) => t :: scan rest
termination_by cs.length
decreasing_by
  exact Nat.lt_of_lt_of_le (first?_length _h) (Numeral.length_dropWhile_le isBlank cs)

end Token

end StateTree.Json
