import StateTree.Json.Reader
import StateTree.Proofs.Json.Scanning

/-
  Reading back what was written. The tokens of a value lead the reader from the beginning of a value
  to the value as it is reread, whatever containers are around it (`run?_tokens`). Main statement:
  both texts of a value are read back as one and the same value, which is equal to the value in its
  normal form and is written like it (`reread_text`). The reader of floating-point numbers is left
  open there and taken to find the nearest ones. The one that documents are read with does so for
  short numerals (`readsNearest_of_isShort`), but not for all (`not_readsNearest_binary64?`).
-/

namespace StateTree.Json

open Value

/-- Each numeral that is not kept as an integer is read as the number nearest to it, if that one is
finite. -/
def ReadsNearest (float? : Numeral → Option Binary64) (ts : List Token) : Prop :=
  ∀ n, .number n ∈ ts → n.int64? = none → n.nearest.isFinite = true → float? n = some n.nearest

variable {float? : Numeral → Option Binary64} {limit : Nat} {ts us : List Token}

theorem ReadsNearest.of_subset (h : ReadsNearest float? us) (hs : ts ⊆ us) :
    ReadsNearest float? ts := fun n hn => h n (hs hn)

/-- The token is no numeral of a floating-point number, or a short one. -/
def Token.IsShort : Token → Prop
  | .number n => n.int64? = none → n.IsShort
  | _ => True

instance : (t : Token) → Decidable t.IsShort
  | .number n => inferInstanceAs (Decidable (n.int64? = none → n.IsShort))
  | .openArray | .closeArray | .openObject | .closeObject | .comma | .colon | .null | .bool _
  | .string _ | .bad => isTrue trivial

/-- The reader of documents reads short numerals as the nearest numbers. -/
theorem readsNearest_of_isShort (h : ∀ t ∈ ts, t.IsShort) : ReadsNearest Numeral.binary64? ts :=
  fun n hn hint finite => Numeral.binary64?_eq_nearest (h (.number n) hn hint) finite

/-- It does not read every numeral so: `1e-307` becomes a neighbour of the nearest number. -/
theorem not_readsNearest_binary64? :
    ¬ ReadsNearest Numeral.binary64? [.number ⟨false, ['1'], [], -307, false⟩] := by
  intro h
  have hread := h _ List.mem_cons_self rfl (by decide +kernel)
  unfold Numeral.binary64? Binary64.scale? at hread
  revert hread
  decide +kernel

/-! ## One token -/

/-- The position after some tokens. -/
def run? (float? : Numeral → Option Binary64) (limit : Nat) (position : Position)
    (ts : List Token) : Option Position := ts.foldlM (step? float? limit) position

theorem run?_cons {position next : Position} {t : Token}
    (h : step? float? limit position t = some next) (rest : List Token) :
    run? float? limit position (t :: rest) = run? float? limit next rest := by
  unfold run?
  rw [List.foldlM_cons, h]
  rfl

theorem step?_number (n : Numeral) (stack : List Frame) :
    step? float? limit (.value, stack) (.number n) =
      (n.numberBy? float?).map fun n => (.after (.number n), stack) := rfl

theorem step?_numberToken (n : Number) (stack : List Frame)
    (h : ReadsNearest float? [numberToken n]) :
    step? float? limit (.value, stack) (numberToken n) = some (.after n.reread, stack) := by
  cases hi : n.toInt? with
  | some i =>
    obtain ⟨low, high⟩ := Number.int64_of_toInt? hi
    rw [numberToken_of_toInt? hi, Number.reread_of_toInt? hi, step?_number,
      Numeral.numberBy?_of_some (Numeral.int64?_ofInt low high), Option.map_some]
  | none =>
    rw [Number.reread_of_not_toInt? hi, Number.normal]
    by_cases finite : n.isFinite = true
    · rw [numberToken_of_isFinite hi finite] at h ⊢
      cases n with
      | int j => simp [Number.toInt?] at hi
      | float x =>
        have hnearest := Numeral.nearest_ofBinary64 finite
          (Binary64.units_ne_zero_of_toInt?_eq_none finite hi)
        have hfloat : float? (.ofBinary64 x) = some x := by
          have hread := h (.ofBinary64 x) List.mem_cons_self (Numeral.int64?_ofBinary64 x)
          rw [hnearest] at hread
          exact hread finite
        rw [if_pos finite, Number.toBinary64, step?_number,
          Numeral.numberBy?_of_none (Numeral.int64?_ofBinary64 x), hfloat, Option.map_some,
          Option.map_some]
    · rw [if_neg finite, numberToken_of_not_isFinite finite]
      rfl

/-! ## Tokens of values -/

/-- The tokens of a value do not begin by closing an array. -/
theorem exists_tokens_cons (v : Value) : ∃ t rest, tokens v = t :: rest ∧ t ≠ .closeArray := by
  cases v with
  | number n =>
    refine ⟨numberToken n, [], rfl, ?_⟩
    unfold numberToken
    split
    · simp
    · split <;> simp
  | _ => exact ⟨_, _, by rw [tokens], by simp⟩

/-- The first item of an array is read like any other. -/
theorem run?_firstItem (v : Value) (stack : List Frame) (rest : List Token) :
    run? float? limit (.firstItem, stack) (tokens v ++ rest) =
      run? float? limit (.value, .items [] :: stack) (tokens v ++ rest) := by
  obtain ⟨t, more, ht, hne⟩ := exists_tokens_cons v
  have hstep : step? float? limit (.firstItem, stack) t =
      step? float? limit (.value, .items [] :: stack) t := by
    cases t <;> first | rfl | exact absurd rfl hne
  unfold run?
  rw [ht, List.cons_append, List.foldlM_cons, List.foldlM_cons, hstep]

/-! ## Between the parts of a container -/

theorem run?_itemComma (v : Value) (done : List Value) (stack : List Frame) (rest : List Token) :
    run? float? limit (.after v, .items done :: stack) (.comma :: rest) =
      run? float? limit (.value, .items (v :: done) :: stack) rest := run?_cons rfl rest

theorem run?_closeArray (v : Value) (done : List Value) (stack : List Frame) (rest : List Token) :
    run? float? limit (.after v, .items done :: stack) (.closeArray :: rest) =
      run? float? limit (.after (.array (v :: done).reverse), stack) rest := run?_cons rfl rest

/-- The name of a field, and the colon after it. -/
theorem run?_fieldName (done : List (String × Value)) (name : String) (stack : List Frame)
    (rest : List Token) :
    run? float? limit (.name done, stack) (.string name :: .colon :: rest) =
      run? float? limit (.value, .fields done name :: stack) rest :=
  (run?_cons rfl _).trans (run?_cons rfl rest)

theorem run?_fieldComma (v : Value) {done : List (String × Value)} {name : String}
    (hname : name ∉ Fields.names done) (stack : List Frame) (rest : List Token) :
    run? float? limit (.after v, .fields done name :: stack) (.comma :: rest) =
      run? float? limit (.name (done ++ [(name, v)]), stack) rest := by
  rw [← Fields.insert_new hname]
  exact run?_cons rfl rest

theorem run?_closeObject (v : Value) {done : List (String × Value)} {name : String}
    (hname : name ∉ Fields.names done) (stack : List Frame) (rest : List Token) :
    run? float? limit (.after v, .fields done name :: stack) (.closeObject :: rest) =
      run? float? limit (.after (.object (done ++ [(name, v)])), stack) rest := by
  rw [← Fields.insert_new hname]
  exact run?_cons rfl rest

theorem step?_open (stack : List Frame) (h : stack.length < limit) :
    step? float? limit (.value, stack) .openArray = some (.firstItem, stack) ∧
      step? float? limit (.value, stack) .openObject = some (.firstName, stack) :=
  ⟨if_pos h, if_pos h⟩

/-- The first field of an object is read like any other. -/
theorem run?_firstName (name : String) (stack : List Frame) (rest : List Token) :
    run? float? limit (.firstName, stack) (.string name :: rest) =
      run? float? limit (.name [], stack) (.string name :: rest) :=
  (run?_cons rfl rest).trans (run?_cons rfl rest).symm

/-! ## Whole values -/

theorem exists_fieldTokens_cons {fields : List (String × Value)} (h : fields ≠ []) :
    ∃ name rest, fieldTokens fields = .string name :: rest := by
  cases fields with
  | nil => exact absurd rfl h
  | cons field more =>
    obtain ⟨name, v⟩ := field
    cases more with
    | nil => exact ⟨name, _, by rw [fieldTokens]⟩
    | cons field' more => exact ⟨name, _, fieldTokens_cons name v (List.cons_ne_nil _ _)⟩

theorem exists_itemTokens_cons (v : Value) (more : List Value) :
    ∃ rest, itemTokens (v :: more) = tokens v ++ rest := by
  cases more with
  | nil => exact ⟨[], by rw [itemTokens, List.append_nil]⟩
  | cons w more => exact ⟨_, itemTokens_cons v (List.cons_ne_nil _ _)⟩

/-- A name that is new among the fields of an object. -/
theorem not_mem_names_of_distinct {done rest : List (String × Value)} {name : String} {v : Value}
    (h : Fields.Distinct (done ++ (name, v) :: rest)) : name ∉ Fields.names done := by
  unfold Fields.Distinct at h
  rw [Fields.names_append, Fields.names_cons, List.nodup_append] at h
  intro hm
  exact h.2.2 name hm name List.mem_cons_self rfl

mutual

/-- The tokens of a value are read as the value, whatever containers are around it. -/
theorem run?_tokens : ∀ {v : Value} {stack : List Frame} (rest : List Token), v.NamesDistinct →
    v.depth + stack.length ≤ limit → ReadsNearest float? (tokens v) →
      run? float? limit (.value, stack) (tokens v ++ rest) =
        run? float? limit (.after v.reread, stack) rest
  | .null, _, rest, _, _, _ => run?_cons rfl rest
  | .bool _, _, rest, _, _, _ => run?_cons rfl rest
  | .string _, _, rest, _, _, _ => run?_cons rfl rest
  | .symbol _, _, rest, _, _, _ => run?_cons rfl rest
  | .function _, _, rest, _, _, _ => run?_cons rfl rest
  | .number n, stack, rest, _, _, hread => by
    rw [tokens] at hread ⊢
    exact run?_cons (step?_numberToken n stack hread) rest
  | .array items, stack, rest, hd, hdepth, hread => by
    rw [NamesDistinct] at hd
    rw [depth] at hdepth
    rw [tokens] at hread ⊢
    have hitems : ReadsNearest float? (itemTokens items) := hread.of_subset
      fun t ht => List.mem_cons_of_mem _ (List.mem_append_left _ ht)
    rw [List.cons_append, List.append_assoc, List.singleton_append,
      run?_cons (step?_open stack (by omega)).1]
    by_cases hne : items = []
    · subst hne
      exact run?_cons rfl rest
    · obtain ⟨v, more, rfl⟩ := List.exists_cons_of_ne_nil hne
      obtain ⟨more', htokens⟩ := exists_itemTokens_cons v more
      rw [htokens, List.append_assoc, run?_firstItem, ← List.append_assoc, ← htokens]
      exact run?_itemTokens rest hne hd hdepth hitems
  | .object fields, stack, rest, hd, hdepth, hread => by
    rw [NamesDistinct] at hd
    rw [depth] at hdepth
    rw [tokens] at hread ⊢
    exact run?_object rest hd.1 hd.2 hdepth hread
  | .instanceOf _ fields, stack, rest, hd, hdepth, hread => by
    rw [NamesDistinct] at hd
    rw [depth] at hdepth
    rw [tokens] at hread ⊢
    exact run?_object rest hd.1 hd.2 hdepth hread

theorem run?_object {fields : List (String × Value)} {stack : List Frame} (rest : List Token)
    (hnames : Fields.Distinct fields) (hd : FieldsDistinct fields)
    (hdepth : fieldsDepth fields + 1 + stack.length ≤ limit)
    (hread : ReadsNearest float? (.openObject :: (fieldTokens fields ++ [.closeObject]))) :
    run? float? limit (.value, stack)
        (.openObject :: (fieldTokens fields ++ [.closeObject]) ++ rest) =
      run? float? limit (.after (.object (documentFields Number.reread fields)), stack) rest := by
  have hfields : ReadsNearest float? (fieldTokens fields) := hread.of_subset
    fun t ht => List.mem_cons_of_mem _ (List.mem_append_left _ ht)
  rw [List.cons_append, List.append_assoc, List.singleton_append,
    run?_cons (step?_open stack (by omega)).2]
  by_cases hne : fields = []
  · subst hne
    exact run?_cons rfl rest
  · obtain ⟨name, more, htokens⟩ := exists_fieldTokens_cons hne
    rw [htokens, List.cons_append, run?_firstName, ← List.cons_append, ← htokens]
    exact run?_fieldTokens rest hne hnames hd hdepth hfields

theorem run?_itemTokens : ∀ {items done : List Value} {stack : List Frame}
    (rest : List Token), items ≠ [] → ItemsDistinct items →
      itemsDepth items + 1 + stack.length ≤ limit → ReadsNearest float? (itemTokens items) →
        run? float? limit (.value, .items done :: stack)
            (itemTokens items ++ .closeArray :: rest) =
          run? float? limit
            (.after (.array (done.reverse ++ documentItems Number.reread items)), stack) rest
  | [], _, _, _, hne, _, _, _ => absurd rfl hne
  | [v], done, stack, rest, _, hd, hdepth, hread => by
    rw [ItemsDistinct] at hd
    rw [itemsDepth, itemsDepth] at hdepth
    rw [itemTokens] at hread ⊢
    have hstack : v.depth + (Frame.items done :: stack).length ≤ limit := by
      rw [List.length_cons]
      omega
    rw [run?_tokens _ hd.1 hstack hread, run?_closeArray, List.reverse_cons]
    rfl
  | v :: w :: more, done, stack, rest, _, hd, hdepth, hread => by
    rw [ItemsDistinct] at hd
    rw [itemsDepth] at hdepth
    rw [itemTokens_cons v (List.cons_ne_nil w more)] at hread ⊢
    have hstack : v.depth + (Frame.items done :: stack).length ≤ limit := by
      rw [List.length_cons]
      omega
    have hfirst : ReadsNearest float? (tokens v) :=
      hread.of_subset fun t ht => List.mem_append_left _ ht
    have hmore : ReadsNearest float? (itemTokens (w :: more)) :=
      hread.of_subset fun t ht => List.mem_append_right _ (List.mem_cons_of_mem _ ht)
    rw [List.append_assoc, List.cons_append, run?_tokens _ hd.1 hstack hfirst, run?_itemComma,
      run?_itemTokens rest (List.cons_ne_nil w more) hd.2 (by omega) hmore, List.reverse_cons,
      List.append_assoc]
    rfl

theorem run?_fieldTokens : ∀ {fields done : List (String × Value)} {stack : List Frame}
    (rest : List Token), fields ≠ [] → Fields.Distinct (done ++ fields) → FieldsDistinct fields →
      fieldsDepth fields + 1 + stack.length ≤ limit → ReadsNearest float? (fieldTokens fields) →
        run? float? limit (.name done, stack) (fieldTokens fields ++ .closeObject :: rest) =
          run? float? limit
            (.after (.object (done ++ documentFields Number.reread fields)), stack) rest
  | [], _, _, _, hne, _, _, _, _ => absurd rfl hne
  | [(name, v)], done, stack, rest, _, hnames, hd, hdepth, hread => by
    rw [FieldsDistinct] at hd
    rw [fieldsDepth, fieldsDepth] at hdepth
    rw [fieldTokens] at hread ⊢
    have hstack : v.depth + (Frame.fields done name :: stack).length ≤ limit := by
      rw [List.length_cons]
      omega
    have hvalue : ReadsNearest float? (tokens v) :=
      hread.of_subset fun t ht => List.mem_cons_of_mem _ (List.mem_cons_of_mem _ ht)
    rw [List.cons_append, List.cons_append, run?_fieldName, run?_tokens _ hd.1 hstack hvalue,
      run?_closeObject _ (not_mem_names_of_distinct hnames)]
    rfl
  | (name, v) :: field :: more, done, stack, rest, _, hnames, hd, hdepth, hread => by
    rw [FieldsDistinct] at hd
    rw [fieldsDepth] at hdepth
    rw [fieldTokens_cons name v (List.cons_ne_nil field more)] at hread ⊢
    have hstack : v.depth + (Frame.fields done name :: stack).length ≤ limit := by
      rw [List.length_cons]
      omega
    have hvalue : ReadsNearest float? (tokens v) := hread.of_subset fun t ht =>
      List.mem_cons_of_mem _ (List.mem_cons_of_mem _ (List.mem_append_left _ ht))
    have hmore : ReadsNearest float? (fieldTokens (field :: more)) := hread.of_subset fun t ht =>
      List.mem_cons_of_mem _ (List.mem_cons_of_mem _
        (List.mem_append_right _ (List.mem_cons_of_mem _ ht)))
    -- The names stay apart when the field that has been read moves to those that are done.
    have hrest : Fields.Distinct ((done ++ [(name, v.reread)]) ++ field :: more) := by
      unfold Fields.Distinct at hnames ⊢
      rw [Fields.names_append] at hnames ⊢
      rw [Fields.names_append, List.append_assoc]
      exact hnames
    rw [List.cons_append, List.cons_append, List.append_assoc, List.cons_append, run?_fieldName,
      run?_tokens _ hd.1 hstack hvalue, run?_fieldComma _ (not_mem_names_of_distinct hnames),
      run?_fieldTokens rest (List.cons_ne_nil field more) hrest hd.2 (by omega) hmore,
      List.append_assoc]
    rfl

end

/-! ## Whole texts -/

theorem scan_write {spacing : Spacing} (hb : spacing.IsBlank) (v : Value) :
    Token.scan (write spacing 0 v).toList = tokens v := by
  have hscan := scans_write hb v 0 [] delimited_nil
  have hnil : Token.scan [] = [] := by
    rw [Token.scan.eq_def]
    rfl
  rwa [List.append_nil, hnil, List.append_nil] at hscan

theorem ofTokens?_tokens {v : Value} (hd : v.NamesDistinct) (hdepth : v.depth ≤ limit)
    (hread : ReadsNearest float? (tokens v)) :
    ofTokens? float? limit (tokens v) = some v.reread := by
  have hrun : run? float? limit (.value, []) (tokens v ++ []) = some (.after v.reread, []) :=
    run?_tokens [] hd (by simpa using hdepth) hread
  rw [List.append_nil] at hrun
  unfold run? at hrun
  unfold ofTokens?
  rw [hrun]

theorem ofJsonBy?_write {spacing : Spacing} (hb : spacing.IsBlank) {v : Value}
    (hd : v.NamesDistinct) (hdepth : v.depth ≤ documentDepth)
    (hread : ReadsNearest float? (tokens v)) :
    Value.ofJsonBy? float? (write spacing 0 v) = some v.reread := by
  rw [Value.ofJsonBy?, readBy?, scan_write hb, ofTokens?_tokens hd hdepth hread]

/-- Both texts of a value with no more than 127 containers around one another are read back as one
value. It is equal to the value in its normal form, and it is written like the value itself. -/
theorem reread_text {v : Value} (hd : v.NamesDistinct) (hdepth : v.depth ≤ documentDepth)
    (hread : ReadsNearest float? (Token.scan v.text.toList)) :
    ∃ w, Value.ofJsonBy? float? v.text = some w ∧ Value.ofJsonBy? float? v.indentedText = some w ∧
      w.same v.normal = true ∧ w.text = v.text := by
  have hscan : Token.scan v.text.toList = tokens v := scan_write isBlank_compact v
  rw [hscan] at hread
  have hcompact := ofJsonBy?_write isBlank_compact hd hdepth hread
  have hindented := ofJsonBy?_write isBlank_indented hd hdepth hread
  exact ⟨v.reread, hcompact, hindented, Value.same_reread_normal hd,
    Value.write_reread .compact 0 v⟩

/-- An instance, a function, a negative zero, NaN, a whole number above `2^53` and the least
integer. -/
def pointValue : Value :=
  .object [("at", .instanceOf "Point" [("x", .number (.float ⟨0xbfe0000000000000⟩)),
      ("y", .number (.float Binary64.negativeZero))]),
    ("log", .array [.function "f", .number (.float Binary64.nan),
      .number (.float ⟨0x43b0000000000000⟩), .number (.int Int64.minValue), .object []])]

/-- Its numerals are short, so documents are read as it takes. -/
theorem reread_text_point :
    pointValue.NamesDistinct ∧ pointValue.depth ≤ documentDepth ∧
      ReadsNearest Numeral.binary64? (Token.scan pointValue.text.toList) ∧
      ∃ w, Value.ofJson? pointValue.text = some w ∧ Value.ofJson? pointValue.indentedText = some w ∧
        w.same pointValue.normal = true ∧ w.text = pointValue.text := by
  have hd : pointValue.NamesDistinct := by
    simp [pointValue, NamesDistinct, FieldsDistinct, ItemsDistinct, Fields.Distinct, Fields.names]
  have hdepth : pointValue.depth ≤ documentDepth := by decide
  have hscan : Token.scan pointValue.text.toList = tokens pointValue :=
    scan_write isBlank_compact pointValue
  have hread : ReadsNearest Numeral.binary64? (Token.scan pointValue.text.toList) := by
    rw [hscan]
    exact readsNearest_of_isShort (by decide +kernel)
  exact ⟨hd, hdepth, hread, reread_text hd hdepth hread⟩

/-- Where every numeral is short, nothing has to be taken for granted about the reader. -/
theorem ofJson?_text_of_isShort {v : Value} (hd : v.NamesDistinct)
    (hdepth : v.depth ≤ documentDepth) (hshort : ∀ t ∈ tokens v, t.IsShort) :
    Value.ofJson? v.text = some v.reread ∧ Value.ofJson? v.indentedText = some v.reread :=
  ⟨ofJsonBy?_write isBlank_compact hd hdepth (readsNearest_of_isShort hshort),
    ofJsonBy?_write isBlank_indented hd hdepth (readsNearest_of_isShort hshort)⟩

end StateTree.Json
