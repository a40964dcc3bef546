import DtoSchema.Proofs.Cut.Checked
import DtoSchema.Proofs.Schema.OptionalCall
import DtoSchema.Proofs.Text.Ends
import DtoSchema.Schema.Code

/-!
# Schemas by checked cuts

When the code of schemas is written, texts are cut in two places: bracket pairs are taken off the
end of a type, and the ending that marks a data type off a name that is compared with others.  The
comparison also reads the cells of a row by those of the row before, which has to have as many
(`nextCells_eq`).
-/

namespace DtoSchema.Cut

open Text Source Schema Naming

/-! ### Suggested names -/

/-- The cells behind a cell of a row.  The row before has to have a cell for each. -/
def nextCells (y : UInt8) : (left : ℕ) → (s : Text) → (row : List ℕ) → Checked (List ℕ)
  | _, [], _ => return []
  | left, x :: s, diagonal :: above :: row => do
    let cell := min (min (above + 1) (left + 1)) (diagonal + if x = y then 0 else 1)
    return cell :: (← nextCells y cell s (above :: row))
  | _, _ :: _, _ => .error .outside

/-- The row behind a row. -/
def nextRow (s : Text) (row : List ℕ) (y : UInt8) : Checked (List ℕ) :=
  match row with
  | [] => .error .outside
  | cell :: _ => do return (cell + 1) :: (← nextCells y (cell + 1) s row)

/-- The last cell of the last row. -/
def tableDistance (s t : Text) : Checked ℕ := do
  match (← t.foldlM (nextRow s) (List.range (s.length + 1))).getLast? with
  | some cell => return cell
  | none => .error .outside

/-- The cells of a row are as many as those of the row before. -/
lemma nextCells_eq (y : UInt8) (left : ℕ) {s : Text} {row : List ℕ}
    (h : row.length = s.length + 1) :
    nextCells y left s row = .ok (Naming.nextCells y left s row) ∧
      (Naming.nextCells y left s row).length = s.length := by
  induction s generalizing left row with
  | nil => exact ⟨rfl, rfl⟩
  | cons x s ih =>
    match row, h with
    | diagonal :: above :: row, h =>
      have hrow : (above :: row).length = s.length + 1 := by simpa using h
      obtain ⟨hcells, hlength⟩ := ih
        (min (min (above + 1) (left + 1)) (diagonal + if x = y then 0 else 1)) hrow
      rw [nextCells, hcells, Naming.nextCells, List.length_cons, hlength]
      exact ⟨rfl, rfl⟩

lemma nextRow_eq (y : UInt8) {s : Text} {row : List ℕ} (h : row.length = s.length + 1) :
    nextRow s row y = .ok (Naming.nextRow s row y) ∧
      (Naming.nextRow s row y).length = s.length + 1 := by
  cases row with
  | nil => simp at h
  | cons cell row =>
    obtain ⟨hcells, hlength⟩ := nextCells_eq y (cell + 1) h
    rw [nextRow, hcells, Naming.nextRow]
    exact ⟨rfl, by simpa using hlength⟩

lemma foldlM_nextRow {s t : Text} {row : List ℕ} (h : row.length = s.length + 1) :
    t.foldlM (nextRow s) row = .ok (t.foldl (Naming.nextRow s) row) ∧
      (t.foldl (Naming.nextRow s) row).length = s.length + 1 := by
  induction t generalizing row with
  | nil => exact ⟨rfl, h⟩
  | cons y t ih =>
    obtain ⟨hrow, hlength⟩ := nextRow_eq y h
    rw [List.foldlM_cons, hrow, ok_bind, List.foldl_cons]
    exact ih hlength

lemma tableDistance_eq (s t : Text) : tableDistance s t = .ok (Naming.tableDistance s t) := by
  obtain ⟨hrows, hlength⟩ := foldlM_nextRow (t := t) (List.length_range (n := s.length + 1))
  rw [tableDistance, hrows, ok_bind, Naming.tableDistance]
  cases hlast : (t.foldl (Naming.nextRow s) (List.range (s.length + 1))).getLast? with
  | none => simp [List.getLast?_eq_none_iff.mp hlast] at hlength
  | some cell => simp [List.getLastD_eq_getLast?, hlast]

/-- The least number of bytes to insert, delete and substitute. -/
def editDistance (s t : Text) : Checked ℕ :=
  if s = t then return 0
  else if s = [] then return t.length
  else if t = [] then return s.length
  else if t.length < s.length then tableDistance t s
  else tableDistance s t

lemma editDistance_eq (s t : Text) : editDistance s t = .ok (Naming.editDistance s t) := by
  simp only [editDistance, Naming.editDistance, tableDistance_eq, pure_eq_ok]
  split_ifs <;> rfl

/-- The similarity of two texts. -/
def textSimilarity (s t : Text) : Checked Binary64 := do
  if s.isEmpty && t.isEmpty then return .one
  else return (Binary64.nearest (← editDistance s t) (Nat.max s.length t.length)).complement

/-- The normalized name without its ending. -/
def normalizeStem (s : Text) : Checked Text :=
  let name := Naming.normalize s
  match endings.find? fun e => endsWith name e && e.length < name.length with
  | some e => upTo e name
  | none => return name

lemma normalizeStem_eq (s : Text) : normalizeStem s = .ok (Naming.normalizeStem s) := by
  simp only [normalizeStem, Naming.normalizeStem]
  cases hfind : endings.find? fun e => endsWith (Naming.normalize s) e &&
      e.length < (Naming.normalize s).length with
  | none => rfl
  | some e =>
    have hsome := List.find?_some hfind
    rw [Bool.and_eq_true] at hsome
    exact upTo_eq (endsWith_iff_suffix.mp hsome.1)

/-- The similarity of two names. -/
def similarity (s t : Text) : Checked Binary64 := do
  return (← textSimilarity (Naming.normalize s) (Naming.normalize t)).max
    (← textSimilarity (← normalizeStem s) (← normalizeStem t))

lemma similarity_eq (s t : Text) : similarity s t = .ok (Naming.similarity s t) := by
  have htext : ∀ s t, textSimilarity s t = .ok (Naming.textSimilarity s t) := by
    intro s t
    rw [textSimilarity, Naming.textSimilarity, editDistance_eq]
    split_ifs <;> rfl
  simp only [similarity, htext, normalizeStem_eq, ok_bind]
  rfl

/-- The suggestions for a name. -/
def suggest (target : Text) (names : List Text) : Checked (List Text) := do
  let candidates ← (names.filter (· != target)).mapM fun n => do
    return (⟨n, ← similarity target n⟩ : Candidate)
  return ((atLeast 3 4 (candidates.mergeSort Candidate.ranksBefore)).take 3).map (·.name)

lemma suggest_eq (target : Text) (names : List Text) :
    suggest target names = .ok (Naming.suggest target names) := by
  rw [suggest, mapM_eq_ok fun n _ => by rw [similarity_eq, ok_bind, pure_eq_ok]]
  rfl

/-! ### Types -/

lemma length_of_memberType? {s t : Text} (h : memberType? s = some t) : t.length < s.length := by
  have hlength : s.reverse.length = s.length := List.length_reverse
  rw [memberType?] at h
  cases hs : s.reverse with
  | nil => simp [hs] at h
  | cons close u =>
    have hgaps : (u.dropWhile isGap).length ≤ u.length := (List.dropWhile_sublist _).length_le
    rw [hs, List.length_cons] at hlength
    cases hu : u.dropWhile isGap with
    | nil => simp [hs, hu] at h
    | cons opening v =>
      have htrim := (trim_sublist v.reverse).length_le
      rw [hu, List.length_cons] at hgaps
      rw [List.length_reverse] at htrim
      simp only [hs, hu, Option.ite_none_right_eq_some, Option.some.injEq] at h
      obtain ⟨-, -, rfl⟩ := h
      omega

lemma peel_memberType? (s : Text) : peel memberType? s = .ok (splitArray s) := by
  have hwithin : ∀ limit s, splitArrayWithin limit s = peelWithin memberType? limit s := by
    intro limit
    induction limit with
    | zero => exact fun _ => rfl
    | succ limit ih =>
      intro s
      rw [splitArrayWithin, peelWithin]
      cases memberType? s with
      | none => rfl
      | some t => simp only [ih]
  rw [peel_eq fun _ _ => length_of_memberType?, splitArray, hwithin]

/-- What a name without arguments is mapped to. -/
def leaf (r : Resolver) (name : Text) : Checked Mapped := do
  let simple := simpleName name
  if r.table.hasEnum simple then return ⟨.enumRef simple, [], false⟩
  else match r.override? name simple with
    | some text => return ⟨.verbatim text, [], false⟩
    | none =>
      match scalars.lookup simple with
      | some e => return ⟨e, [], false⟩
      | none =>
        if isDate name simple then return ⟨.string, [], false⟩
        else if r.table.hasClass simple then return ⟨.classRef simple, [], false⟩
        else return ⟨.unknown, [unknownType name (← suggest simple r.table.names)], false⟩

lemma leaf_eq (r : Resolver) (name : Text) : leaf r name = .ok (r.leaf name) := by
  simp only [leaf, Resolver.leaf, suggest_eq, ok_bind, pure_eq_ok]
  split_ifs
  · rfl
  all_goals
    cases r.override? name (simpleName name) with
    | some text => rfl
    | none => cases scalars.lookup (simpleName name) <;> rfl

/-- What a type that is no array is mapped to, given the mapping of its arguments. -/
def base (r : Resolver) (argument : Text → Checked Mapped) (s : Text) : Checked Mapped := do
  match splitGeneric? s with
  | none => leaf r s
  | some (name, inner) =>
    if collectionName name ∈ listNames then
      let member ← argument inner
      return { member with expr := .array member.expr }
    else if collectionName name ∈ mapNames then
      match splitTopLevel (ascii ',') inner with
      | [key, value] =>
        return mapRecord (trim key) (← argument (trim key)) (← argument (trim value))
      | _ => leaf r s
    else leaf r s

/-- What a type is mapped to. -/
def mapWithin (r : Resolver) (root : Text) : (allowance : ℕ) → Text → Checked Mapped
  | 0, _ => return ⟨.unknown, [tooDeep root], true⟩
  | allowance + 1, s => do
    let (s, pairs) ← peel memberType? (unwrap s)
    let mapped ← base r (mapWithin r root allowance) s
    return { mapped with expr := mapped.expr.arrays pairs }

lemma mapWithin_eq (r : Resolver) (root : Text) (allowance : ℕ) (s : Text) :
    mapWithin r root allowance s = .ok (r.mapWithin root allowance s) := by
  induction allowance generalizing s with
  | zero => rfl
  | succ allowance ih =>
    have hbase : ∀ s, base r (mapWithin r root allowance) s =
        .ok (r.base (r.mapWithin root allowance) s) := by
      intro s
      simp only [base, Resolver.base, leaf_eq, ih, ok_bind, pure_eq_ok]
      cases splitGeneric? s with
      | none => rfl
      | some x =>
        simp only
        split_ifs
        · rfl
        · rcases splitTopLevel (ascii ',') x.2 with _ | ⟨key, _ | ⟨value, _ | _⟩⟩ <;> rfl
        · rfl
    rw [mapWithin, peel_memberType?, ok_bind, Resolver.mapWithin]
    simp only [hbase, ok_bind]
    rfl

/-! ### Code -/

/-- What a field of a class is mapped to, with its diagnostics located. -/
def mapField (layout : Layout) (table : SymbolTable) (c : ClassDecl) (f : Field) :
    Checked (Expr × List Diagnostic) := do
  let mapped ← mapWithin ⟨table, layout.overrides⟩ (collapse f.type)
    (depthLimit layout.maxDepth + 1) f.type
  return (mapped.expr, mapped.diagnostics.map (Diagnostic.locate c.name f.name))

/-- The block of a class, and its diagnostics. -/
def classBlock (layout : Layout) (table : SymbolTable) (c : ClassDecl) :
    Checked (Block × List Diagnostic) := do
  let mapped ← c.fields.mapM fun f => do
    let (e, ds) ← mapField layout table c f
    return (fieldLine layout f e, ds)
  return (⟨c.name, objectBody (mapped.map Prod.fst)⟩, mapped.flatMap Prod.snd)

lemma classBlock_eq (layout : Layout) (table : SymbolTable) (c : ClassDecl) :
    classBlock layout table c =
      .ok (Schema.classBlock layout table c, classDiagnostics layout table c) := by
  have hfield : ∀ f, mapField layout table c f = .ok (Schema.mapField layout table c f) := by
    intro f
    rw [mapField, mapWithin_eq]
    rfl
  rw [classBlock, mapM_eq_ok fun f _ => by rw [hfield]; rfl, ok_bind, List.map_map,
    List.flatMap_map]
  rfl

/-- The code of all declarations, and what there is to say about them. -/
def generate (layout : Layout) (table : SymbolTable) (enums : List EnumDecl)
    (classes : List ClassDecl) : Checked (Text × List Diagnostic) := do
  let written ← classes.mapM (classBlock layout table)
  return (codeOf layout (enums.map enumBlock ++ written.map Prod.fst), written.flatMap Prod.snd)

lemma generate_eq (layout : Layout) (table : SymbolTable) (enums : List EnumDecl)
    (classes : List ClassDecl) :
    generate layout table enums classes =
      .ok (Schema.generate layout table enums classes,
        Schema.diagnostics layout table classes) := by
  rw [generate, mapM_eq_ok fun c _ => classBlock_eq layout table c, ok_bind, List.map_map,
    List.flatMap_map]
  rfl

end DtoSchema.Cut
