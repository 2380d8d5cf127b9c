/-
  Quoted strings of JSON text. Quotes, backslashes and control characters are escaped, and all
  else stands for itself. Reading also takes the escaped slash and code units of 16 bits, of which
  a pair may stand for one character and half a pair for none.
-/

namespace StateTree.Json.Quoted

/-- The digit of a value below sixteen, in lower case. -/
def hexDigit (n : Nat) : Char := Nat.digitChar n

/-- How a character is written between quotes. -/
def escape (c : Char) : List Char :=
  match c with
  | '"' => ['\\', '"']
  | '\\' => ['\\', '\\']
  | '\x08' => ['\\', 'b']
  | '\x0c' => ['\\', 'f']
  | '\n' => ['\\', 'n']
  | '\r' => ['\\', 'r']
  | '\t' => ['\\', 't']
  | c =>
    if c.toNat < 0x20 then ['\\', 'u', '0', '0', hexDigit (c.toNat / 16), hexDigit (c.toNat % 16)]
    else [c]

/-- The quoted form of a string. -/
def encode (s : String) : String := String.ofList ('"' :: s.toList.flatMap escape ++ ['"'])

/-! ## Reading -/

/-- A character of the string, or a code unit written by its number. -/
inductive Piece
  | char (c : Char)
  | unit (n : Nat)

/-- The character that a letter stands for after a backslash. -/
def unescape? : Char → Option Char
  | '"' => some '"'
  | '\\' => some '\\'
  | '/' => some '/'
  | 'b' => some '\x08'
  | 'f' => some '\x0c'
  | 'n' => some '\n'
  | 'r' => some '\r'
  | 't' => some '\t'
  | _ => none

def hexValue? (c : Char) : Option Nat :=
  if c.isDigit then some (c.toNat - '0'.toNat)
  else if 'a' ≤ c ∧ c ≤ 'f' then some (c.toNat - 'a'.toNat + 10)
  else if 'A' ≤ c ∧ c ≤ 'F' then some (c.toNat - 'A'.toNat + 10)
  else none

/-- The code unit of four hexadecimal digits. -/
def unit? (a b c d : Char) : Option Nat := do
  return (((← hexValue? a) * 16 + (← hexValue? b)) * 16 + (← hexValue? c)) * 16 + (← hexValue? d)

/-- The pieces up to the closing quote, and what follows it. -/
def pieces? : List Char → Option (List Piece × List Char)
  | [] => none
  | '"' :: rest => some ([], rest)
  | '\\' :: 'u' :: a :: b :: c :: d :: rest =>
    match unit? a b c d, pieces? rest with
    | some n, some (more, tail) => some (.unit n :: more, tail)
    | _, _ => none
  | '\\' :: e :: rest =>
    match unescape? e, pieces? rest with
    | some c, some (more, tail) => some (.char c :: more, tail)
    | _, _ => none
  | c :: rest =>
    if c = '\\' ∨ c.toNat < 0x20 then none
    else
      match pieces? rest with
      | some (more, tail) => some (.char c :: more, tail)
      | none => none

def isHigh (n : Nat) : Bool := 0xD800 ≤ n ∧ n < 0xDC00

def isLow (n : Nat) : Bool := 0xDC00 ≤ n ∧ n < 0xE000

/-- The characters of the pieces. A high code unit needs a low one right after it. -/
def characters? : List Piece → Option (List Char)
  | [] => some []
  | .char c :: rest => (characters? rest).map (c :: ·)
  | .unit n :: rest =>
    if isHigh n then
      match rest with
      | .unit low :: more =>
        if isLow low then
          (characters? more).map
            (Char.ofNat (0x10000 + (n - 0xD800) * 0x400 + (low - 0xDC00)) :: ·)
        else none
      | _ => none
    else if isLow n then none
    else (characters? rest).map (Char.ofNat n :: ·)

/-- The string whose opening quote has been read, and what follows its closing quote. -/
def decode? (cs : List Char) : Option (String × List Char) :=
  match pieces? cs with
  | some (pieces, rest) => (characters? pieces).map fun s => (String.ofList s, rest)
  | none => none

/-! ## A string takes up text -/

theorem pieces?_length {cs : List Char} {pieces : List Piece} {rest : List Char}
    (h : pieces? cs = some (pieces, rest)) : rest.length < cs.length := by
  fun_induction pieces? cs generalizing pieces with
  | case1 => simp at h
  | case2 => simp at h; simp [h.2]
  | case3 a b c d tail n more last hp hu ih =>
    simp at h
    have := ih (h.2 ▸ hp)
    simp
    omega
  | case4 => simp at h
  | case5 e tail hu c more last hp he ih =>
    simp at h
    have := ih (h.2 ▸ hp)
    simp
    omega
  | case6 => simp at h
  | case7 => simp at h
  | case8 c tail hq hu he hc more last hp ih =>
    simp at h
    have := ih (h.2 ▸ hp)
    simp
    omega
  | case9 => simp at h

theorem decode?_length {cs : List Char} {s : String} {rest : List Char}
    (h : decode? cs = some (s, rest)) : rest.length < cs.length := by
  unfold decode? at h
  split at h
  · next pieces tail hp =>
    obtain ⟨_, _, e⟩ := Option.map_eq_some_iff.1 h
    simp at e
    exact e.2 ▸ pieces?_length hp
  · simp at h

/-! ## Reading back what was written -/

theorem pieces?_plain {c : Char} {rest : List Char} (hq : c ≠ '"') (hb : c ≠ '\\')
    (hc : ¬ c.toNat < 0x20) :
    pieces? (c :: rest) = (pieces? rest).map fun p => (.char c :: p.1, p.2) := by
  rw [pieces?.eq_5 _ _ (fun h => hq h) (fun _ _ _ _ _ h _ => hb h) (fun _ _ h _ => hb h)]
  rw [if_neg (not_or.2 ⟨hb, hc⟩)]
  cases pieces? rest <;> rfl

theorem pieces?_escape {e c : Char} {rest : List Char} (he : unescape? e = some c) :
    pieces? ('\\' :: e :: rest) = (pieces? rest).map fun p => (.char c :: p.1, p.2) := by
  have hu : e ≠ 'u' := by
    rintro rfl
    simp [unescape?] at he
  rw [pieces?.eq_4 _ _ (fun _ _ _ _ _ h _ => hu h)]
  rw [he]
  cases pieces? rest <;> rfl

theorem pieces?_unit {a b c d : Char} {n : Nat} {rest : List Char} (h : unit? a b c d = some n) :
    pieces? ('\\' :: 'u' :: a :: b :: c :: d :: rest) =
      (pieces? rest).map fun p => (.unit n :: p.1, p.2) := by
  rw [pieces?]
  rw [h]
  cases pieces? rest <;> rfl

theorem unit?_control :
    ∀ n < 0x20, unit? '0' '0' (hexDigit (n / 16)) (hexDigit (n % 16)) = some n := by
  decide

/-- The written form of a character is read as one piece that stands for it. -/
theorem pieces?_escape_append (c : Char) (rest : List Char) :
    ∃ piece, pieces? (escape c ++ rest) = (pieces? rest).map (fun p => (piece :: p.1, p.2)) ∧
      ∀ more, characters? (piece :: more) = (characters? more).map (c :: ·) := by
  unfold escape
  split
  case h_8 hq hb _ _ _ _ _ =>
    split
    · next h =>
      refine ⟨.unit c.toNat, pieces?_unit (unit?_control _ h), fun more => ?_⟩
      have hh : isHigh c.toNat = false := by simp [isHigh]; omega
      have hl : isLow c.toNat = false := by simp [isLow]; omega
      rw [characters?.eq_def]
      simp [hh, hl, Char.ofNat_toNat]
    · next h => exact ⟨.char c, pieces?_plain hq hb h, fun more => by simp [characters?]⟩
  all_goals exact ⟨_, pieces?_escape rfl, fun more => by simp [characters?]⟩

/-- A quoted string reads back, and reading stops after its closing quote. -/
theorem decode?_escape (s rest : List Char) :
    decode? (s.flatMap escape ++ '"' :: rest) = some (String.ofList s, rest) := by
  have h : ∃ pieces, pieces? (s.flatMap escape ++ '"' :: rest) = some (pieces, rest) ∧
      characters? pieces = some s := by
    induction s with
    | nil => exact ⟨[], by simp [pieces?], rfl⟩
    | cons c s ih =>
      obtain ⟨pieces, hp, hc⟩ := ih
      obtain ⟨piece, hpiece, hmore⟩ := pieces?_escape_append c (s.flatMap escape ++ '"' :: rest)
      refine ⟨piece :: pieces, ?_, ?_⟩
      · rw [List.flatMap_cons, List.append_assoc, hpiece, hp]
        rfl
      · rw [hmore, hc]
        rfl
  obtain ⟨pieces, hp, hc⟩ := h
  simp [decode?, hp, hc]

end StateTree.Json.Quoted
