import StateTree.Proofs.Value.Document

/-
  The canonical form of a value. The fields of every object and instance are sorted by name there,
  and every number that is an integer is held as one. Main statement: as long as integers stay
  within `2^53`, two values are equal exactly if they have the same canonical form, so equality is
  an equivalence that does not look at the order of fields; and equal values whose fields come in
  the same order are written alike (`same_laws`). Nothing is claimed for larger integers, which can
  be equal to a floating-point number that is equal to another integer too.
-/

namespace StateTree

theorem Number.numberText_canonical (n : Number) :
    Json.numberText n.canonical = Json.numberText n := by
  cases hi : n.toInt? with
  | some i =>
    have htext : Json.numberText (.int (Int64.ofInt i)) = toString (Int64.ofInt i).toInt := rfl
    rw [canonical_of_toInt? hi, htext, toInt_int64_of_toInt? hi, Json.numberText, hi]
  | none => rw [canonical_of_not_toInt? hi]

namespace Value

variable {u v w : Value}

/-! ## Canonical forms -/

mutual

/-- The value with all fields sorted by name and all integers held as such. -/
def canonical : Value → Value
  | .number n => .number n.canonical
  | .array items => .array (canonicalItems items)
  | .object fields => .object (Fields.sorted (canonicalFields fields))
  | .instanceOf className fields => .instanceOf className (Fields.sorted (canonicalFields fields))
  | v => v

def canonicalItems : List Value → List Value
  | [] => []
  | v :: rest => canonical v :: canonicalItems rest

def canonicalFields : List (String × Value) → List (String × Value)
  | [] => []
  | (name, v) :: rest => (name, canonical v) :: canonicalFields rest

end

theorem canonicalFields_eq (fields : List (String × Value)) :
    canonicalFields fields = Fields.mapValues canonical fields := by
  induction fields with
  | nil => rfl
  | cons field rest ih => exact congrArg ((field.1, field.2.canonical) :: ·) ih

mutual

/-- All numbers in a value, at any depth. -/
def numbers : Value → List Number
  | .number n => [n]
  | .array items => itemNumbers items
  | .object fields => fieldNumbers fields
  | .instanceOf _ fields => fieldNumbers fields
  | _ => []

def itemNumbers : List Value → List Number
  | [] => []
  | v :: rest => numbers v ++ itemNumbers rest

def fieldNumbers : List (String × Value) → List Number
  | [] => []
  | (_, v) :: rest => numbers v ++ fieldNumbers rest

end

/-- Names stand once in every object and instance, and no integer is of a magnitude above `2^53`. -/
structure IsSafe (v : Value) : Prop where
  names : v.NamesDistinct
  numbers : ∀ n ∈ v.numbers, n.IsSafe

theorem isSafe_items {items : List Value} :
    (ItemsDistinct items ∧ ∀ n ∈ itemNumbers items, n.IsSafe) ↔ ∀ v ∈ items, v.IsSafe := by
  induction items with
  | nil => simp [ItemsDistinct, itemNumbers]
  | cons v rest ih =>
    rw [List.forall_mem_cons, ← ih, ItemsDistinct, itemNumbers, List.forall_mem_append]
    exact ⟨fun h => ⟨⟨h.1.1, h.2.1⟩, h.1.2, h.2.2⟩,
      fun h => ⟨⟨h.1.names, h.2.1⟩, h.1.numbers, h.2.2⟩⟩

theorem isSafe_fields {fields : List (String × Value)} :
    (FieldsDistinct fields ∧ ∀ n ∈ fieldNumbers fields, n.IsSafe) ↔
      ∀ field ∈ fields, field.2.IsSafe := by
  induction fields with
  | nil => simp [FieldsDistinct, fieldNumbers]
  | cons field rest ih =>
    obtain ⟨name, v⟩ := field
    rw [List.forall_mem_cons, ← ih, FieldsDistinct, fieldNumbers, List.forall_mem_append]
    exact ⟨fun h => ⟨⟨h.1.1, h.2.1⟩, h.1.2, h.2.2⟩,
      fun h => ⟨⟨h.1.names, h.2.1⟩, h.1.numbers, h.2.2⟩⟩

theorem isSafe_array {items : List Value} : (array items).IsSafe ↔ ∀ v ∈ items, v.IsSafe := by
  rw [← isSafe_items]
  exact ⟨fun h => ⟨h.names, h.numbers⟩, fun h => ⟨h.1, h.2⟩⟩

theorem isSafe_object {fields : List (String × Value)} :
    (object fields).IsSafe ↔ Fields.Distinct fields ∧ ∀ field ∈ fields, field.2.IsSafe := by
  rw [← isSafe_fields]
  exact ⟨fun h => ⟨h.names.1, h.names.2, h.numbers⟩, fun h => ⟨⟨h.1, h.2.1⟩, h.2.2⟩⟩

theorem isSafe_instanceOf {className : String} {fields : List (String × Value)} :
    (instanceOf className fields).IsSafe ↔ (object fields).IsSafe :=
  ⟨fun h => ⟨h.names, h.numbers⟩, fun h => ⟨h.names, h.numbers⟩⟩

/-! ## Equality of canonical forms -/

theorem sameObject_iff {xs ys : List (String × Value)} (hx : (object xs).IsSafe)
    (hy : (object ys).IsSafe)
    (h : ∀ x ∈ xs, ∀ y ∈ ys, (x.2.same y.2 = true ↔ x.2.canonical = y.2.canonical)) :
    (xs.length == ys.length && sameFields xs ys) = true ↔
      Fields.sorted (canonicalFields xs) = Fields.sorted (canonicalFields ys) := by
  rw [sameFields_eq_all, canonicalFields_eq, canonicalFields_eq]
  exact Fields.same_iff_sorted (isSafe_object.1 hx).1 (isSafe_object.1 hy).1 h

mutual

/-- Equal values have one canonical form, and no others do. -/
theorem same_iff : ∀ {v w : Value}, v.IsSafe → w.IsSafe →
    (v.same w = true ↔ v.canonical = w.canonical)
  | .null, w, _, _ => by cases w <;> simp [same, canonical]
  | .bool a, w, _, _ => by cases w <;> simp [same, canonical]
  | .number m, w, hv, hw => by
    cases w with
    | number n =>
      rw [same, canonical, canonical, number.injEq]
      exact Number.same_iff_canonical (hv.numbers m (by simp [Value.numbers]))
        (hw.numbers n (by simp [Value.numbers]))
    | _ => simp [same, canonical]
  | .string s, w, _, _ => by cases w <;> simp [same, canonical]
  | .symbol s, w, _, _ => by cases w <;> simp [same, canonical]
  | .function s, w, _, _ => by cases w <;> simp [same, canonical]
  | .array xs, w, hv, hw => by
    cases w with
    | array ys =>
      rw [same, canonical, canonical, array.injEq]
      exact sameItems_iff (isSafe_array.1 hv) (isSafe_array.1 hw)
    | _ => simp [same, canonical]
  | .object xs, w, hv, hw => by
    cases w with
    | object ys =>
      rw [same, canonical, canonical, object.injEq]
      exact sameObject_iff hv hw fun x hx y hy =>
        same_iff_of_mem (isSafe_object.1 hv).2 hx ((isSafe_object.1 hw).2 y hy)
    | _ => simp [same, canonical]
  | .instanceOf c xs, w, hv, hw => by
    rw [isSafe_instanceOf] at hv
    cases w with
    | instanceOf d ys =>
      rw [isSafe_instanceOf] at hw
      have hfields := sameObject_iff hv hw fun x hx y hy =>
        same_iff_of_mem (isSafe_object.1 hv).2 hx ((isSafe_object.1 hw).2 y hy)
      rw [same, canonical, canonical, instanceOf.injEq, Bool.and_eq_true, hfields, beq_iff_eq]
    | _ => simp [same, canonical]

theorem sameItems_iff : ∀ {xs ys : List Value}, (∀ v ∈ xs, v.IsSafe) → (∀ w ∈ ys, w.IsSafe) →
    (sameItems xs ys = true ↔ canonicalItems xs = canonicalItems ys)
  | [], ys, _, _ => by cases ys <;> simp [sameItems, canonicalItems]
  | x :: xs, ys, hx, hy => by
    cases ys with
    | nil => simp [sameItems, canonicalItems]
    | cons y ys =>
      rw [List.forall_mem_cons] at hx hy
      rw [sameItems, canonicalItems, canonicalItems, Bool.and_eq_true, List.cons.injEq,
        same_iff hx.1 hy.1, sameItems_iff hx.2 hy.2]

theorem same_iff_of_mem : ∀ {xs : List (String × Value)}, (∀ field ∈ xs, field.2.IsSafe) →
    ∀ {field : String × Value}, field ∈ xs → ∀ {w : Value}, w.IsSafe →
      (field.2.same w = true ↔ field.2.canonical = w.canonical)
  | [], _, field, hm, _, _ => by simp at hm
  | (name, v) :: rest, hx, field, hm, w, hw => by
    rw [List.forall_mem_cons] at hx
    rcases List.mem_cons.1 hm with rfl | hm
    · exact same_iff hx.1 hw
    · exact same_iff_of_mem hx.2 hm hw

end

theorem same_trans (hu : u.IsSafe) (hv : v.IsSafe) (hw : w.IsSafe) (huv : u.same v = true)
    (hvw : v.same w = true) : u.same w = true :=
  (same_iff hu hw).2 (((same_iff hu hv).1 huv).trans ((same_iff hv hw).1 hvw))

/-! ## Fields in one order -/

/-- Whether other values stand in a value. -/
def isContainer : Value → Bool
  | .array _ | .object _ | .instanceOf _ _ => true
  | _ => false

/-- The fields of objects and instances that stand at one place come in one order. -/
inductive SameOrder : Value → Value → Prop
  | single {v w : Value} (hv : v.isContainer = false) (hw : w.isContainer = false) : SameOrder v w
  | array {xs ys : List Value} (h : ∀ p ∈ xs.zip ys, SameOrder p.1 p.2) :
      SameOrder (.array xs) (.array ys)
  | object {xs ys : Fields Value} (hnames : xs.names = ys.names)
      (h : ∀ p ∈ xs.zip ys, SameOrder p.1.2 p.2.2) : SameOrder (.object xs) (.object ys)
  | instanceOf {c d : String} {xs ys : Fields Value} (hnames : xs.names = ys.names)
      (h : ∀ p ∈ xs.zip ys, SameOrder p.1.2 p.2.2) : SameOrder (.instanceOf c xs) (.instanceOf d ys)

/-- The value as documents have it, with all integers held as such. -/
def settled (v : Value) : Value := v.document fun n => .number n.canonical

theorem settled_of_not_isContainer (h : v.isContainer = false) :
    v.settled = v.canonical.document .number := by
  cases v with
  | array _ | object _ | instanceOf _ _ => cases h
  | _ => rfl

theorem documentItems_congr {number : Number → Value} {xs ys : List Value}
    (h : List.Forall₂ (fun x y => x.document number = y.document number) xs ys) :
    documentItems number xs = documentItems number ys := by
  induction h with
  | nil => rfl
  | cons hone _ ih => rw [documentItems, documentItems, hone, ih]

theorem documentFields_congr {number : Number → Value} {xs ys : Fields Value}
    (h : List.Forall₂ (fun x y => x.1 = y.1 ∧ x.2.document number = y.2.document number) xs ys) :
    documentFields number xs = documentFields number ys := by
  induction h with
  | nil => rfl
  | @cons x y _ _ hone _ ih =>
    obtain ⟨name, x⟩ := x
    obtain ⟨name', y⟩ := y
    obtain ⟨rfl, hone⟩ : name = name' ∧ _ := hone
    rw [documentFields, documentFields, hone, ih]

/-- Where the names come in one order, equal fields stand side by side. -/
theorem same_of_mem_zip {xs ys : Fields Value} (hy : ys.Distinct) (hnames : xs.names = ys.names)
    (h : sameFields xs ys = true) : ∀ p ∈ xs.zip ys, p.1.2.same p.2.2 = true := by
  rintro ⟨⟨name, x⟩, name', y⟩ hp
  have hside := Fields.forall₂_of_zip (P := fun _ _ => True) hnames fun _ _ => trivial
  obtain ⟨rfl, -⟩ : name = name' ∧ True := (List.forall₂_iff_zip.1 hside).2 hp
  obtain ⟨y', hget, hsame⟩ := sameFields_iff.1 h name x (List.of_mem_zip hp).1
  rw [Fields.get?_of_mem hy (List.of_mem_zip hp).2, Option.some.injEq] at hget
  exact hget ▸ hsame

theorem documentFields_of_same {number : Number → Value} {xs ys : Fields Value} (hy : ys.Distinct)
    (hnames : xs.names = ys.names) (h : sameFields xs ys = true)
    (hdocument : ∀ p ∈ xs.zip ys, p.1.2.same p.2.2 = true →
      p.1.2.document number = p.2.2.document number) :
    documentFields number xs = documentFields number ys :=
  documentFields_congr (Fields.forall₂_of_zip hnames fun p hp =>
    hdocument p hp (same_of_mem_zip hy hnames h p hp))

/-- Equal values whose fields come in one order differ in nothing that is written. -/
theorem settled_of_same (h : SameOrder v w) (hv : v.IsSafe) (hw : w.IsSafe)
    (hsame : v.same w = true) : v.settled = w.settled := by
  induction h with
  | single hvc hwc =>
    rw [settled_of_not_isContainer hvc, settled_of_not_isContainer hwc, (same_iff hv hw).1 hsame]
  | array _ ih =>
    obtain ⟨hlen, hzip⟩ := List.forall₂_iff_zip.1 (sameItems_iff_forall₂.1 hsame)
    refine congrArg Value.array (documentItems_congr (List.forall₂_iff_zip.2 ⟨hlen, fun hp => ?_⟩))
    exact ih _ hp (isSafe_array.1 hv _ (List.of_mem_zip hp).1)
      (isSafe_array.1 hw _ (List.of_mem_zip hp).2) (hzip hp)
  | object hnames _ ih =>
    rw [same, Bool.and_eq_true] at hsame
    rw [isSafe_object] at hv hw
    refine congrArg Value.object (documentFields_of_same hw.1 hnames hsame.2 fun p hp => ?_)
    exact ih p hp (hv.2 _ (List.of_mem_zip hp).1) (hw.2 _ (List.of_mem_zip hp).2)
  | instanceOf hnames _ ih =>
    rw [same, Bool.and_eq_true, Bool.and_eq_true] at hsame
    rw [isSafe_instanceOf, isSafe_object] at hv hw
    refine congrArg Value.object (documentFields_of_same hw.1 hnames hsame.2.2 fun p hp => ?_)
    exact ih p hp (hv.2 _ (List.of_mem_zip hp).1) (hw.2 _ (List.of_mem_zip hp).2)

theorem text_settled (v : Value) : v.settled.text = v.text := by
  refine write_document (fun depth n => ?_) v 0
  rw [Json.write, Number.numberText_canonical]

/-! ## Laws of equality -/

/-- As long as integers stay within `2^53`, values are equal exactly if they have one canonical
form. Equality is an equivalence. It ignores the order of fields at any depth, but compares arrays
item by item, and tells objects from instances and instances of different classes apart. Equal
values whose fields come in the same order are written alike. -/
theorem same_laws (hu : u.IsSafe) (hv : v.IsSafe) (hw : w.IsSafe) :
    (u.same v = true ↔ u.canonical = v.canonical) ∧
      (u.same u = true ∧ (u.same v = true → v.same u = true) ∧
        (u.same v = true → v.same w = true → u.same w = true)) ∧
      (Reordered u v → u.same v = true) ∧
      (∀ xs ys, u = .array xs → v = .array ys →
        (u.same v = true ↔ List.Forall₂ (fun x y => x.same y = true) xs ys)) ∧
      (∀ c xs ys, u = .object xs → v = .instanceOf c ys → u.same v = false ∧ v.same u = false) ∧
      (∀ c d xs ys, u = .instanceOf c xs → v = .instanceOf d ys → c ≠ d → u.same v = false) ∧
      (SameOrder u v → u.same v = true → u.text = v.text) := by
  refine ⟨same_iff hu hv, ⟨same_self hu.names, fun h => (same_comm hu.names hv.names) ▸ h,
    same_trans hu hv hw⟩, fun h => same_of_reordered h hu.names, ?_, ?_, ?_, fun h hsame => ?_⟩
  · rintro xs ys rfl rfl
    exact sameItems_iff_forall₂
  · rintro c xs ys rfl rfl
    exact ⟨rfl, rfl⟩
  · rintro c d xs ys rfl rfl hne
    rw [same, beq_eq_false_iff_ne.2 hne, Bool.false_and]
  · rw [← text_settled u, settled_of_same h hu hv hsame, text_settled]

/-- Two readings of a probe, with a negative zero. -/
def reading : Value :=
  .object [("at", .array [.number (.int 7), .number (.float Binary64.negativeZero)]),
    ("by", .instanceOf "Probe" [("id", .number (.int 1)), ("on", .bool true)])]

/-- The same reading with its fields in another order. -/
def shuffledReading : Value :=
  .object [("by", .instanceOf "Probe" [("on", .bool true), ("id", .number (.int 1))]),
    ("at", .array [.number (.int 7), .number (.float Binary64.negativeZero)])]

/-- The same reading with all its numbers held otherwise. -/
def convertedReading : Value :=
  .object [("at", .array [.number (.float ⟨0x401c000000000000⟩), .number (.int 0)]),
    ("by", .instanceOf "Probe" [("id", .number (.float ⟨0x3ff0000000000000⟩)), ("on", .bool true)])]

theorem same_laws_reading :
    (reading.IsSafe ∧ shuffledReading.IsSafe ∧ convertedReading.IsSafe) ∧
      Reordered reading shuffledReading ∧ shuffledReading.same reading = true ∧
      reading.canonical = shuffledReading.canonical ∧
      SameOrder reading convertedReading ∧ reading.text = convertedReading.text ∧
      shuffledReading.same convertedReading = true := by
  have hsafe : reading.IsSafe := ⟨by simp [reading, NamesDistinct, FieldsDistinct, ItemsDistinct,
    Fields.Distinct, Fields.names], by decide⟩
  have hshuffled : shuffledReading.IsSafe := ⟨by simp [shuffledReading, NamesDistinct,
    FieldsDistinct, ItemsDistinct, Fields.Distinct, Fields.names], by decide⟩
  have hconverted : convertedReading.IsSafe := ⟨by simp [convertedReading, NamesDistinct,
    FieldsDistinct, ItemsDistinct, Fields.Distinct, Fields.names], by decide⟩
  have hprobe : Reordered (.instanceOf "Probe" [("id", .number (.int 1)), ("on", .bool true)])
      (.instanceOf "Probe" [("on", .bool true), ("id", .number (.int 1))]) := by
    refine .instanceOf (List.Perm.swap _ _ _) fun name x y hx hy => .related ?_
    simp only [Fields.get?_cons, Fields.get?_nil] at hx hy
    grind
  have hreordered : Reordered reading shuffledReading := by
    refine .object (List.Perm.swap _ _ _) fun name x y hx hy => ?_
    simp only [Fields.get?_cons, Fields.get?_nil] at hx hy
    by_cases hat : name = "at"
    · refine .related ?_
      grind
    · have hby : name = "by" := by grind
      subst hby
      grind
  have horder : SameOrder reading convertedReading := by
    refine .object rfl (List.forall_mem_cons.2 ⟨.array ?_, List.forall_mem_cons.2 ⟨?_, by simp⟩⟩)
    · simpa using ⟨.single rfl rfl, .single rfl rfl⟩
    · exact .instanceOf rfl (by simpa using ⟨.single rfl rfl, .single rfl rfl⟩)
  obtain ⟨hcanonical, ⟨-, hsymm, -⟩, hreorder, -⟩ := same_laws hsafe hshuffled hconverted
  obtain ⟨-, -, -, -, -, -, htext⟩ := same_laws hsafe hconverted hshuffled
  obtain ⟨-, ⟨-, -, htrans⟩, -⟩ := same_laws hshuffled hsafe hconverted
  have hsame := hreorder hreordered
  have hconvert : reading.same convertedReading = true := by decide +kernel
  exact ⟨⟨hsafe, hshuffled, hconverted⟩, hreordered, hsymm hsame, hcanonical.1 hsame, horder,
    htext horder hconvert, htrans (hsymm hsame) hconvert⟩

end Value

end StateTree
