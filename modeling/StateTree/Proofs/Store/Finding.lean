import StateTree.Store.Lookup

/-
  Where paths lead. The segments of a path lead to a node, or there is a first one at which there
  is none (`follow`); the text of the path counts for nothing else but the report of a failure. Main
  statement: a path that is put together from two leads where the second one leads from the end of
  the first, further slashes make no difference, and a composite resolves a path among its fields
  just as the path is found from the composite (`find_slash`).
-/

namespace StateTree

section MapError

variable {ε ε' α : Type} {x : Except ε α} {f : ε → ε'} {a : α} {e : ε'}

theorem mapError_ok (f : ε → ε') (a : α) : (Except.ok a).mapError f = .ok a := rfl

theorem mapError_error (f : ε → ε') (e : ε) :
    (Except.error e : Except ε α).mapError f = .error (f e) := rfl

theorem mapError_eq_ok_iff : x.mapError f = .ok a ↔ x = .ok a := by
  cases x with
  | error e => simp [mapError_error]
  | ok b => simp [mapError_ok]

theorem mapError_eq_error_iff : x.mapError f = .error e ↔ ∃ e', x = .error e' ∧ e = f e' := by
  cases x with
  | error e' => simp [mapError_error, eq_comm]
  | ok b => simp [mapError_ok]

end MapError

namespace Store

variable {s : Store} {id target : NodeId} {path path' : Path}

/-! ## Following segments -/

/-- The node at the end of these segments, or the first segment at which there is none. -/
def follow (s : Store) (id : NodeId) : List String → Except String NodeId
  | [] => .ok id
  | segment :: rest =>
    match s.child? id segment with
    | some child => s.follow child rest
    | none => .error segment

theorem walk_eq_follow (s : Store) (path : Path) (id : NodeId) (segments : List String) :
    s.walk path id segments = (s.follow id segments).mapError (.unresolvedPath path) := by
  induction segments generalizing id with
  | nil => rfl
  | cons segment rest ih =>
    rw [walk, follow]
    cases s.child? id segment with
    | none => rfl
    | some child => exact ih child

theorem follow_append (s : Store) (id : NodeId) (front back : List String) :
    s.follow id (front ++ back) = (s.follow id front).bind (s.follow · back) := by
  induction front generalizing id with
  | nil => rfl
  | cons segment rest ih =>
    rw [List.cons_append, follow, follow]
    cases s.child? id segment with
    | none => rfl
    | some child => exact ih child

theorem find_eq_ok_iff :
    s.find id path = .ok target ↔ s.follow id (Path.segments path) = .ok target := by
  rw [find, walk_eq_follow, mapError_eq_ok_iff]

theorem find_eq_error_iff {e : Error} : s.find id path = .error e ↔
    ∃ segment, s.follow id (Path.segments path) = .error segment ∧
      e = .unresolvedPath path segment := by
  rw [find, walk_eq_follow, mapError_eq_error_iff]

theorem find_eq_unresolvedPath_iff {segment : String} :
    s.find id path = .error (.unresolvedPath path segment) ↔
      s.follow id (Path.segments path) = .error segment := by
  rw [find_eq_error_iff]
  constructor
  · rintro ⟨other, hfollow, e⟩
    rwa [(Error.unresolvedPath.inj e).2]
  · exact fun hfollow => ⟨segment, hfollow, rfl⟩

/-! ## Paths with the same segments -/

/-- From everywhere, both paths lead to one node, or to none because of one segment. -/
def SameWay (path path' : Path) : Prop :=
  ∀ (s : Store) (id : NodeId),
    (∀ target, s.find id path = .ok target ↔ s.find id path' = .ok target) ∧
      ∀ segment, s.find id path = .error (.unresolvedPath path segment) ↔
        s.find id path' = .error (.unresolvedPath path' segment)

theorem sameWay_of_segments_eq (h : Path.segments path = Path.segments path') :
    SameWay path path' := fun s id =>
  ⟨fun target => by rw [find_eq_ok_iff, find_eq_ok_iff, h],
    fun segment => by rw [find_eq_unresolvedPath_iff, find_eq_unresolvedPath_iff, h]⟩

theorem sameWay_leading (path : Path) : SameWay ("/" ++ path) path := by
  apply sameWay_of_segments_eq
  rw [← String.empty_append (s := "/"), Path.segments_append_slash, Path.segments_empty,
    List.nil_append]

theorem sameWay_trailing (path : Path) : SameWay (path ++ "/") path := by
  apply sameWay_of_segments_eq
  rw [← String.append_empty (s := path ++ "/"), Path.segments_append_slash, Path.segments_empty,
    List.append_nil]

theorem sameWay_doubled (front back : Path) :
    SameWay (front ++ "//" ++ back) (front ++ "/" ++ back) := by
  apply sameWay_of_segments_eq
  have hdouble : front ++ "//" ++ back = front ++ "/" ++ "" ++ "/" ++ back := by
    rw [String.append_empty]
    show front ++ ("/" ++ "/") ++ back = _
    rw [← String.append_assoc]
  rw [hdouble, Path.segments_append_slash, Path.segments_append_slash, Path.segments_empty,
    List.append_nil, ← Path.segments_append_slash]

/-! ## Paths put together -/

variable {front back : Path}

theorem follow_slash (s : Store) (id : NodeId) (front back : Path) :
    s.follow id (Path.segments (front ++ "/" ++ back)) =
      (s.follow id (Path.segments front)).bind (s.follow · (Path.segments back)) := by
  rw [Path.segments_append_slash, follow_append]

theorem find_slash_eq_ok_iff : s.find id (front ++ "/" ++ back) = .ok target ↔
    ∃ mid, s.find id front = .ok mid ∧ s.find mid back = .ok target := by
  simp only [find_eq_ok_iff, follow_slash]
  cases s.follow id (Path.segments front) with
  | error segment => simp [Except.bind]
  | ok mid => simp [Except.bind]

theorem find_slash_eq_error_iff {e : Error} : s.find id (front ++ "/" ++ back) = .error e ↔
    ∃ segment, e = .unresolvedPath (front ++ "/" ++ back) segment ∧
      (s.find id front = .error (.unresolvedPath front segment) ∨
        ∃ mid, s.find id front = .ok mid ∧
          s.find mid back = .error (.unresolvedPath back segment)) := by
  rw [find_eq_error_iff]
  simp only [find_eq_unresolvedPath_iff, find_eq_ok_iff, follow_slash]
  refine exists_congr fun segment => ?_
  rw [and_comm]
  refine and_congr_right fun _ => ?_
  cases s.follow id (Path.segments front) with
  | error segment => simp [Except.bind]
  | ok mid => simp [Except.bind]

/-! ## Fields of a composite -/

theorem resolve_eq_none_iff {fields : Fields NodeId} :
    s.resolve fields path = .ok none ↔ Path.segments path = [] := by
  unfold resolve
  cases Path.segments path with
  | nil => simp
  | cons segment rest =>
    cases hc : fields.get? segment with
    | none => simp [hc]
    | some child => cases hw : s.walk path child rest <;> simp [hc, hw, Except.map]

theorem resolve_eq_find {fields : Fields NodeId} (hn : s.node? id = some (.composite fields))
    (hp : Path.segments path ≠ []) : s.resolve fields path = (s.find id path).map some := by
  unfold resolve find
  cases hs : Path.segments path with
  | nil => exact absurd hs hp
  | cons segment rest =>
    have hchild : s.child? id segment = fields.get? segment := by rw [child?, hn]
    rw [walk, hchild]
    cases hc : fields.get? segment with
    | none => simp only [hc]; rfl
    | some child => simp only [hc]

/-- The second part of a path leads on from the node that the first one leads to, and where either
leads to none, the failure names the whole path and the segment at which there is no node. A slash
more at the beginning, at the end or beside another one makes no difference. A composite finds what
a path without segments does not name, and everything else, among its fields. -/
theorem find_slash (s : Store) (id : NodeId) (front back : Path) :
    (∀ target, s.find id (front ++ "/" ++ back) = .ok target ↔
      ∃ mid, s.find id front = .ok mid ∧ s.find mid back = .ok target) ∧
    (∀ e, s.find id (front ++ "/" ++ back) = .error e ↔
      ∃ segment, e = .unresolvedPath (front ++ "/" ++ back) segment ∧
        (s.find id front = .error (.unresolvedPath front segment) ∨
          ∃ mid, s.find id front = .ok mid ∧
            s.find mid back = .error (.unresolvedPath back segment))) ∧
    SameWay ("/" ++ front) front ∧ SameWay (front ++ "/") front ∧
    SameWay (front ++ "//" ++ back) (front ++ "/" ++ back) ∧
    ∀ fields, s.node? id = some (.composite fields) → ∀ path,
      (s.resolve fields path = .ok none ↔ Path.segments path = []) ∧
      (Path.segments path ≠ [] → s.resolve fields path = (s.find id path).map some) :=
  ⟨fun _ => find_slash_eq_ok_iff, fun _ => find_slash_eq_error_iff, sameWay_leading front,
    sameWay_trailing front, sameWay_doubled front back,
    fun _ hn _ => ⟨resolve_eq_none_iff, fun hp => resolve_eq_find hn hp⟩⟩

/-- A composite of one list of one scalar. -/
def columnStore : Store :=
  ⟨#[some (.scalar (.ofDeclaration (.ofSchema (.primitive .bool)))), some (.list [⟨0⟩]),
    some (.composite [("rows", ⟨1⟩)])]⟩

theorem find_slash_column :
    columnStore.find ⟨2⟩ ("/rows/" ++ "/" ++ "00") = .ok ⟨0⟩ ∧
      columnStore.find ⟨2⟩ ("rows/7" ++ "/" ++ "x") = .error (.unresolvedPath "rows/7/x" "7") ∧
      columnStore.node? ⟨2⟩ = some (.composite [("rows", ⟨1⟩)]) ∧
      columnStore.resolve [("rows", ⟨1⟩)] "//" = .ok none ∧
      columnStore.resolve [("rows", ⟨1⟩)] "rows//0/x" =
        (columnStore.find ⟨2⟩ "rows//0/x").map some := by
  have hn : columnStore.node? ⟨2⟩ = some (.composite [("rows", ⟨1⟩)]) := rfl
  obtain ⟨hfound, -⟩ := find_slash columnStore ⟨2⟩ "/rows/" "00"
  obtain ⟨-, hfailed, -, -, -, hresolve⟩ := find_slash columnStore ⟨2⟩ "rows/7" "x"
  exact ⟨(hfound ⟨0⟩).2 ⟨⟨1⟩, rfl, rfl⟩, (hfailed _).2 ⟨"7", rfl, Or.inl rfl⟩, hn,
    (hresolve _ hn "//").1.2 (by decide), (hresolve _ hn "rows//0/x").2 (by decide)⟩

end Store

end StateTree
