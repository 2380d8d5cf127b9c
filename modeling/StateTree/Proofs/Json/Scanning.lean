import StateTree.Json.Token
import StateTree.Json.Writer
import StateTree.Proofs.Json.Numerals
import StateTree.Proofs.Value.Document

/-
  The tokens of written values. `tokens v` are the tokens that both layouts of a value have in
  common: an indented text only has more blanks between them. Main statement: scanning the text of
  a value gives its tokens and stops after them, whatever delimiter or bracket comes next
  (`scans_write`).
-/

namespace StateTree

namespace Json

/-! ## The tokens of a value -/

def numberToken (n : Number) : Token :=
  match n.toInt? with
  | some i => .number (.ofInt i)
  | none => if n.isFinite then .number (.ofBinary64 n.toBinary64) else .null

variable {n : Number}

theorem numberToken_of_toInt? {i : Int} (h : n.toInt? = some i) :
    numberToken n = .number (.ofInt i) := by
  unfold numberToken
  rw [h]

theorem numberToken_of_isFinite (h : n.toInt? = none) (finite : n.isFinite = true) :
    numberToken n = .number (.ofBinary64 n.toBinary64) := by
  unfold numberToken
  rw [h]
  exact if_pos finite

theorem numberToken_of_not_isFinite (h : n.isFinite ≠ true) : numberToken n = .null := by
  unfold numberToken
  cases hi : n.toInt? with
  | some i => exact absurd (Number.isFinite_of_toInt? hi) h
  | none => exact if_neg h

mutual

def tokens : Value → List Token
  | .null => [.null]
  | .bool b => [.bool b]
  | .number n => [numberToken n]
  | .string s => [.string s]
  | .array items => .openArray :: (itemTokens items ++ [.closeArray])
  | .object fields => .openObject :: (fieldTokens fields ++ [.closeObject])
  | .symbol name => [.string ("<symbol " ++ name ++ ">")]
  | .function name => [.string ("<function " ++ name ++ ">")]
  | .instanceOf _ fields => .openObject :: (fieldTokens fields ++ [.closeObject])

def itemTokens : List Value → List Token
  | [] => []
  | [v] => tokens v
  | v :: rest => tokens v ++ .comma :: itemTokens rest

def fieldTokens : List (String × Value) → List Token
  | [] => []
  | [(name, v)] => .string name :: .colon :: tokens v
  | (name, v) :: rest => .string name :: .colon :: (tokens v ++ .comma :: fieldTokens rest)

end

theorem itemTokens_cons (v : Value) {rest : List Value} (h : rest ≠ []) :
    itemTokens (v :: rest) = tokens v ++ .comma :: itemTokens rest := by
  rw [itemTokens]
  exact h

theorem fieldTokens_cons (name : String) (v : Value) {rest : List (String × Value)}
    (h : rest ≠ []) :
    fieldTokens ((name, v) :: rest) =
      .string name :: .colon :: (tokens v ++ .comma :: fieldTokens rest) := by
  rw [fieldTokens]
  exact h

/-! ## Scanning one token -/

open Token

theorem scan_blank {c : Char} (h : isBlank c = true) (cs : List Char) :
    scan (c :: cs) = scan cs := by
  rw [scan.eq_def, scan.eq_def cs, List.dropWhile_cons, if_pos h]

theorem scan_blanks {bs : List Char} (h : ∀ c ∈ bs, isBlank c = true) (cs : List Char) :
    scan (bs ++ cs) = scan cs := by
  induction bs with
  | nil => rfl
  | cons b bs ih =>
    rw [List.cons_append, scan_blank (h b List.mem_cons_self)]
    exact ih fun c hc => h c (List.mem_cons_of_mem _ hc)

theorem scan_first? {c : Char} {cs rest : List Char} {t : Token} (hc : isBlank c = false)
    (h : first? (c :: cs) = some (t, rest)) : scan (c :: cs) = t :: scan rest := by
  have hdrop : (c :: cs).dropWhile isBlank = c :: cs := by
    rw [List.dropWhile_cons, if_neg (Bool.eq_false_iff.1 hc)]
  rw [scan.eq_def]
  split
  · next hnone =>
    rw [hdrop, h] at hnone
    simp at hnone
  · next t' rest' hsome =>
    rw [hdrop, h, Option.some.injEq, Prod.mk.injEq] at hsome
    rw [hsome.1, hsome.2]

/-- The character is a token of its own and begins no other one. -/
structure Punctuates (c : Char) (t : Token) : Prop where
  notBlank : isBlank c = false
  notContinuing : continues c = false
  first : ∀ rest, first? (c :: rest) = some (t, rest)

theorem punctuates_openArray : Punctuates '[' .openArray := ⟨rfl, rfl, fun _ => rfl⟩

theorem punctuates_closeArray : Punctuates ']' .closeArray := ⟨rfl, rfl, fun _ => rfl⟩

theorem punctuates_openObject : Punctuates '\x7b' .openObject := ⟨rfl, rfl, fun _ => rfl⟩

theorem punctuates_closeObject : Punctuates '\x7d' .closeObject := ⟨rfl, rfl, fun _ => rfl⟩

theorem punctuates_comma : Punctuates ',' .comma := ⟨rfl, rfl, fun _ => rfl⟩

theorem punctuates_colon : Punctuates ':' .colon := ⟨rfl, rfl, fun _ => rfl⟩

theorem Punctuates.scan {c : Char} {t : Token} (h : Punctuates c t) (rest : List Char) :
    scan (c :: rest) = t :: Token.scan rest := scan_first? h.notBlank (h.first rest)

theorem not_continues_of_isBlank {c : Char} (h : isBlank c = true) : continues c = false := by
  simp only [isBlank, Bool.or_eq_true, decide_eq_true_eq] at h
  rcases h with ((rfl | rfl) | rfl) | rfl <;> rfl

/-- A numeral begins with a sign or a digit. -/
theorem head_of_read? {c : Char} {cs rest : List Char} {n : Numeral}
    (h : Numeral.read? (c :: cs) = some (n, rest)) : c = '-' ∨ c.isDigit = true := by
  by_cases hminus : c = '-'
  · exact Or.inl hminus
  refine Or.inr ?_
  by_contra hdigit
  have hnil : (c :: cs).takeWhile Char.isDigit = [] := by simp [hdigit]
  unfold Numeral.read? at h
  split at h
  · next e => exact hminus (List.cons.inj e).1
  · simp [Numeral.unsigned?, hnil] at h

theorem first?_numeral {c : Char} {cs rest : List Char} {n : Numeral}
    (h : Numeral.read? (c :: cs) = some (n, rest)) :
    first? (c :: cs) = some (.number n, rest) := by
  have hc := head_of_read? h
  unfold first?
  split
  case h_1 => contradiction
  case h_12 c' cs' _ _ _ _ _ _ _ _ _ _ e =>
    rw [← e, h]
  all_goals
    next e =>
      obtain ⟨rfl, -⟩ := List.cons.inj e
      exact absurd hc (by decide)

/-! ## Scanning texts -/

/-- The text is scanned to these tokens wherever a delimiter comes next. -/
def Scans (cs : List Char) (ts : List Token) : Prop :=
  ∀ rest, Delimited rest → scan (cs ++ rest) = ts ++ scan rest

variable {cs ds bs : List Char} {ts us : List Token} {name : String}

theorem scans_numeral {n : Numeral}
    (h : ∀ rest, Delimited rest → Numeral.read? (cs ++ rest) = some (n, rest)) :
    Scans cs [.number n] := by
  intro rest hrest
  have hread := h rest hrest
  cases hcs : cs ++ rest with
  | nil =>
    rw [hcs] at hread
    simp [Numeral.read?, Numeral.unsigned?] at hread
  | cons c cs' =>
    rw [hcs] at hread
    have hblank : isBlank c = false := by
      refine Bool.eq_false_iff.2 fun hb => ?_
      simp only [isBlank, Bool.or_eq_true, decide_eq_true_eq] at hb
      have hc := head_of_read? hread
      rcases hb with ((rfl | rfl) | rfl) | rfl <;> exact absurd hc (by decide)
    exact scan_first? hblank (first?_numeral hread)

theorem scans_null : Scans "null".toList [.null] := fun _ _ => scan_first? rfl rfl

theorem scans_bool (b : Bool) : Scans (if b then "true" else "false").toList [.bool b] := by
  intro rest _
  cases b with
  | true => exact scan_first? rfl rfl
  | false => exact scan_first? rfl rfl

theorem scan_encode (s : String) (rest : List Char) :
    scan ((Quoted.encode s).toList ++ rest) = .string s :: scan rest := by
  have hdecode := Quoted.decode?_escape s.toList rest
  rw [String.ofList_toList] at hdecode
  have hencode : (Quoted.encode s).toList ++ rest =
      '"' :: (s.toList.flatMap Quoted.escape ++ '"' :: rest) := by
    rw [Quoted.encode, String.toList_ofList, List.cons_append, List.cons_append, List.append_assoc]
    rfl
  rw [hencode]
  refine scan_first? rfl ?_
  simp only [first?, hdecode]

theorem scans_encode (s : String) : Scans (Quoted.encode s).toList [.string s] :=
  fun rest _ => scan_encode s rest

theorem scans_number (n : Number) : Scans (numberText n).toList [numberToken n] := by
  by_cases finite : n.isFinite = true
  · cases hi : n.toInt? with
    | some i =>
      rw [numberToken_of_toInt? hi, numberText, hi]
      exact scans_numeral fun rest hrest => Numeral.read?_toString i hrest
    | none =>
      rw [numberToken_of_isFinite hi finite, numberText, hi]
      cases n with
      | int j => simp [Number.toInt?] at hi
      | float x =>
        have hunits := Binary64.units_ne_zero_of_toInt?_eq_none finite hi
        exact scans_numeral fun rest hrest => Numeral.read?_floatText finite hunits hrest
  · rw [numberToken_of_not_isFinite finite, Number.numberText_of_not_isFinite finite]
    exact scans_null

/-! ## Putting texts together -/

theorem delimited_blanks (hbs : ∀ c ∈ bs, isBlank c = true) (h : Delimited cs) :
    Delimited (bs ++ cs) := by
  cases bs with
  | nil => exact h
  | cons b bs => exact delimited_cons (not_continues_of_isBlank (hbs b List.mem_cons_self)) _

theorem Scans.blanks (hbs : ∀ c ∈ bs, isBlank c = true) (h : Scans cs ts) :
    Scans (bs ++ cs) ts := by
  intro rest hrest
  rw [List.append_assoc, scan_blanks hbs, h rest hrest]

theorem Scans.comma {text more : String} (h : Scans text.toList ts) (h' : Scans more.toList us) :
    Scans (text ++ "," ++ more).toList (ts ++ .comma :: us) := by
  intro rest hrest
  have hlist : (text ++ "," ++ more).toList ++ rest =
      text.toList ++ ',' :: (more.toList ++ rest) := by
    rw [String.toList_append, String.toList_append, List.append_assoc, List.append_assoc]
    rfl
  rw [hlist, h _ (delimited_cons punctuates_comma.notContinuing _), punctuates_comma.scan,
    h' rest hrest, List.append_assoc]
  rfl

theorem Scans.field (hbs : ∀ c ∈ bs, isBlank c = true) (h : Scans cs ts) :
    Scans ((Quoted.encode name).toList ++ ':' :: (bs ++ cs)) (.string name :: .colon :: ts) := by
  intro rest hrest
  rw [List.append_assoc, scan_encode, List.cons_append, punctuates_colon.scan,
    (h.blanks hbs) rest hrest]
  rfl

theorem Scans.enclose {o c : Char} {t u : Token} (ho : Punctuates o t) (hc : Punctuates c u)
    (hbs : ∀ c ∈ bs, isBlank c = true) (h : Scans cs ts) :
    Scans (o :: (cs ++ (bs ++ [c]))) (t :: (ts ++ [u])) := by
  intro rest hrest
  have hclose : Delimited (bs ++ [c] ++ rest) := by
    rw [List.append_assoc]
    exact delimited_blanks hbs (delimited_cons hc.notContinuing rest)
  rw [List.cons_append, ho.scan, List.append_assoc, h _ hclose, List.append_assoc,
    scan_blanks hbs, List.singleton_append, hc.scan, List.cons_append, List.append_assoc]
  rfl

theorem scans_empty {o c : Char} {t u : Token} (ho : Punctuates o t) (hc : Punctuates c u) :
    Scans [o, c] [t, u] := by
  intro rest _
  show scan (o :: c :: rest) = _
  rw [ho.scan, hc.scan]
  rfl

/-! ## Layouts -/

/-- A layout puts only blanks between the tokens. -/
structure Spacing.IsBlank (spacing : Spacing) : Prop where
  line : ∀ depth, ∀ c ∈ (spacing.line depth).toList, isBlank c = true
  colon : ∃ bs, spacing.colon.toList = ':' :: bs ∧ ∀ c ∈ bs, isBlank c = true

theorem isBlank_compact : Spacing.compact.IsBlank := by
  refine ⟨fun depth c hc => ?_, [], rfl, by simp⟩
  simp [Spacing.compact] at hc

theorem isBlank_indented : Spacing.indented.IsBlank := by
  refine ⟨fun depth c hc => ?_, [' '], rfl, by simp [isBlank]⟩
  rw [Spacing.indented, String.toList_ofList, List.mem_cons] at hc
  rcases hc with rfl | hc
  · rfl
  · rw [(List.mem_replicate.1 hc).2]
    rfl

variable {spacing : Spacing}

theorem scans_enclose (hb : spacing.IsBlank) {opening closing inner : String} {o c : Char}
    {t u : Token} (hopening : opening.toList = [o]) (hclosing : closing.toList = [c])
    (ho : Punctuates o t) (hc : Punctuates c u) (depth : Nat) {isEmpty : Bool}
    (hempty : isEmpty = true → ts = []) (h : isEmpty = false → Scans inner.toList ts) :
    Scans (spacing.enclose depth opening closing isEmpty inner).toList (t :: (ts ++ [u])) := by
  unfold Spacing.enclose
  cases isEmpty with
  | true =>
    rw [if_pos rfl, hempty rfl, String.toList_append, hopening, hclosing]
    exact scans_empty ho hc
  | false =>
    rw [if_neg Bool.false_ne_true, String.toList_append, String.toList_append, String.toList_append,
      hopening, hclosing, List.append_assoc, List.append_assoc]
    exact (h rfl).enclose ho hc (hb.line depth)

/-- One field, with its line. -/
theorem scans_entry (hb : spacing.IsBlank) (depth : Nat) (name : String) {text : String}
    (h : Scans text.toList ts) :
    Scans (spacing.line depth ++ Quoted.encode name ++ spacing.colon ++ text).toList
      (.string name :: .colon :: ts) := by
  obtain ⟨bs, hcolon, hbs⟩ := hb.colon
  rw [String.toList_append, String.toList_append, String.toList_append, hcolon, List.append_assoc,
    List.append_assoc, List.cons_append]
  exact (h.field hbs).blanks (hb.line depth)

theorem scans_array (hb : spacing.IsBlank) (depth : Nat) {items : List Value}
    (h : items.isEmpty = false →
      Scans (writeItems spacing (depth + 1) items).toList (itemTokens items)) :
    Scans (write spacing depth (.array items)).toList (tokens (.array items)) := by
  rw [write, tokens]
  refine scans_enclose hb rfl rfl punctuates_openArray punctuates_closeArray depth ?_ h
  intro hempty
  rw [List.isEmpty_iff.1 hempty, itemTokens]

theorem scans_object (hb : spacing.IsBlank) (depth : Nat) {fields : List (String × Value)}
    (h : fields.isEmpty = false →
      Scans (writeFields spacing (depth + 1) fields).toList (fieldTokens fields)) :
    Scans (write spacing depth (.object fields)).toList (tokens (.object fields)) := by
  rw [write, tokens]
  refine scans_enclose hb rfl rfl punctuates_openObject punctuates_closeObject depth ?_ h
  intro hempty
  rw [List.isEmpty_iff.1 hempty, fieldTokens]

mutual

/-- The text of a value is scanned to the tokens of the value, in any layout. -/
theorem scans_write (hb : spacing.IsBlank) : ∀ (v : Value) (depth : Nat),
    Scans (write spacing depth v).toList (tokens v)
  | .null, _ => by
    rw [write, tokens]
    exact scans_null
  | .bool b, _ => by
    rw [write, tokens]
    exact scans_bool b
  | .number n, _ => by
    rw [write, tokens]
    exact scans_number n
  | .string s, _ => by
    rw [write, tokens]
    exact scans_encode s
  | .symbol name, _ => by
    rw [write, tokens]
    exact scans_encode _
  | .function name, _ => by
    rw [write, tokens]
    exact scans_encode _
  | .array items, depth => scans_array hb depth (scans_writeItems hb items (depth + 1))
  | .object fields, depth => scans_object hb depth (scans_writeFields hb fields (depth + 1))
  | .instanceOf className fields, depth => by
    have hwrite : write spacing depth (.instanceOf className fields) =
        write spacing depth (.object fields) := by rw [write, write]
    have htokens : tokens (.instanceOf className fields) = tokens (.object fields) := by
      rw [tokens, tokens]
    rw [hwrite, htokens]
    exact scans_object hb depth (scans_writeFields hb fields (depth + 1))

theorem scans_writeItems (hb : spacing.IsBlank) : ∀ (items : List Value) (depth : Nat),
    items.isEmpty = false → Scans (writeItems spacing depth items).toList (itemTokens items)
  | [], _, h => by simp at h
  | [v], depth, _ => by
    rw [writeItems, itemTokens, String.toList_append]
    exact (scans_write hb v depth).blanks (hb.line depth)
  | v :: w :: rest, depth, _ => by
    have hfirst : Scans (spacing.line depth ++ write spacing depth v).toList (tokens v) := by
      rw [String.toList_append]
      exact (scans_write hb v depth).blanks (hb.line depth)
    have hrest := scans_writeItems hb (w :: rest) depth rfl
    rw [writeItems_cons _ _ _ (List.cons_ne_nil w rest),
      itemTokens_cons _ (List.cons_ne_nil w rest)]
    exact hfirst.comma hrest

theorem scans_writeFields (hb : spacing.IsBlank) : ∀ (fields : List (String × Value)) (depth : Nat),
    fields.isEmpty = false → Scans (writeFields spacing depth fields).toList (fieldTokens fields)
  | [], _, h => by simp at h
  | [(name, v)], depth, _ => by
    rw [writeFields, fieldTokens]
    exact scans_entry hb depth name (scans_write hb v depth)
  | (name, v) :: field :: rest, depth, _ => by
    have hfirst := scans_entry hb depth name (scans_write hb v depth)
    have hrest := scans_writeFields hb (field :: rest) depth rfl
    rw [writeFields_cons _ _ _ _ (List.cons_ne_nil field rest),
      fieldTokens_cons _ _ (List.cons_ne_nil field rest)]
    exact hfirst.comma hrest

end

end Json

end StateTree
