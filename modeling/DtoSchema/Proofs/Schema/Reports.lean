import DtoSchema.Proofs.Schema.References
import DtoSchema.Proofs.Schema.TypeTree

/-!
# What the mapping of a type reports

A type that cannot be resolved becomes the schema of anything, and something is said about it.
`Mapped.IsReported` is what the answers for all types have in common: there is something to say if and
only if anything is allowed somewhere, and what there is to say consists of warnings, with the error
that the limit was passed behind them if it was.

A record throws away what there was to say about its key.  Nothing is lost by that: a key whose values
are written as texts has no diagnostics, and every other one is replaced by a warning of its own.

Whether an answer allows anything can be seen in its text (`Expr.infix_text_iff`), since the names of
declarations are identifiers.
-/

namespace DtoSchema.Schema

open Text Source

/-! ### Expressions that allow anything -/

/-- The expression and the expressions in it. -/
def Expr.subexpressions (e : Expr) : List Expr :=
  e :: match e with
    | array member => member.subexpressions
    | record value => value.subexpressions
    | _ => []

/-- What can be seen in a text behind a part that it does not touch can be seen without the part. -/
lemma infix_append_iff {needle p : Text}
    (h : ∀ q ∈ p.tails, q ≠ [] → ¬ q <+: needle ∧ ¬ needle <+: q) (t : Text) :
    needle <:+: p ++ t ↔ needle <:+: t := by
  constructor
  · rintro ⟨before, after, heq⟩
    rw [List.append_assoc, List.append_eq_append_iff] at heq
    rcases heq with ⟨q, hp, hneedle⟩ | ⟨u, hbefore, ht⟩
    · by_cases hq : q = []
      · exact ⟨[], after, by simpa [hq] using hneedle⟩
      · have hmem : q ∈ p.tails := (List.mem_tails _ _).mpr ⟨before, hp.symm⟩
        obtain ⟨hshort, hlong⟩ := h q hmem hq
        have hstart : needle <+: q ++ t := ⟨after, hneedle⟩
        rcases List.prefix_or_prefix_of_prefix hstart (List.prefix_append q t) with hc | hc
        · exact absurd hc hlong
        · exact absurd hc hshort
    · exact ⟨u, after, by rw [List.append_assoc, ← ht]⟩
  · intro ht
    exact ht.trans (List.suffix_append p t).isInfix

/-- What can be seen in a text in front of its last byte does not end with that byte unless the text
goes on as it does. -/
lemma infix_concat_iff_of_getLast? {needle t : Text} {b c : UInt8}
    (ht : t.getLast? ≠ some c) :
    needle ++ [c, b] <:+: t ++ [b] ↔ needle ++ [c, b] <:+: t := by
  rw [List.infix_concat_iff]
  constructor
  · rintro (hend | hseen)
    · obtain ⟨u, hu⟩ := hend
      have hlast : u ++ needle ++ [c] = t := by
        have hsplit : (u ++ needle ++ [c]) ++ [b] = t ++ [b] := by simpa using hu
        exact List.append_cancel_right hsplit
      exact absurd (by simp [← hlast]) ht
    · exact hseen
  · exact Or.inr

/-- The text of an expression does not end with an opening parenthesis. -/
lemma Expr.getLast?_text {direct deferred : Text → Prop} {e : Expr}
    (h : e.RefersTo direct deferred) : e.text.getLast? ≠ some (ascii '(') := by
  have hschema : utf8 "Schema" = utf8 "Schem" ++ [ascii 'a'] := by decide
  have hlazy : utf8 "Schema)" = utf8 "Schema" ++ [ascii ')'] := by decide
  cases e with
  | verbatim text => exact h.elim
  | array member => simp [text, utf8_closeParen]; decide
  | record value => simp [text, utf8_closeParen]; decide
  | enumRef name => simp [text, hschema]; decide
  | classRef name => simp [text, hlazy]; decide
  | _ => decide

/-- An expression whose references are identifiers allows anything somewhere if and only if that can
be seen in its text. -/
lemma Expr.infix_text_iff {e : Expr} (h : e.RefersTo (isIdent ·) (isIdent ·)) :
    utf8 "z.unknown()" <:+: e.text ↔ .unknown ∈ e.subexpressions := by
  have hneedle : utf8 "z.unknown()" = utf8 "z.unknown" ++ [ascii '(', ascii ')'] := by decide
  have hdot : ∀ {n : Text}, isIdent n → ascii '.' ∉ n := by
    intro n hn hmem
    exact absurd (List.all_eq_true.mp (all_isIdentPart_of_isIdent hn) _ hmem) (by decide)
  have hname : ∀ {n suffix : Text}, isIdent n → ascii '.' ∉ suffix →
      ¬ utf8 "z.unknown()" <:+: n ++ suffix := by
    intro n suffix hn hsuffix hseen
    have hmem : ascii '.' ∈ n ++ suffix := hseen.subset (by decide)
    simp [hdot hn, hsuffix] at hmem
  induction e with
  | unknown => simp [text, subexpressions]
  | array member ih =>
    have hseen : utf8 "z.unknown()" <:+: text (.array member) ↔
        utf8 "z.unknown()" <:+: member.text := by
      rw [text, List.append_assoc, infix_append_iff (by decide), hneedle, utf8_closeParen,
        infix_concat_iff_of_getLast? (getLast?_text (e := member) h)]
    simp [hseen, ih h, subexpressions]
  | record value ih =>
    have hseen : utf8 "z.unknown()" <:+: text (.record value) ↔
        utf8 "z.unknown()" <:+: value.text := by
      rw [text, List.append_assoc, infix_append_iff (by decide), hneedle, utf8_closeParen,
        infix_concat_iff_of_getLast? (getLast?_text (e := value) h)]
    simp [hseen, ih h, subexpressions]
  | enumRef name =>
    simpa [text, subexpressions] using hname h (by decide)
  | classRef name =>
    have hseen : ¬ utf8 "z.unknown()" <:+: utf8 "z.lazy(() => " ++ (name ++ utf8 "Schema)") := by
      rw [infix_append_iff (by decide)]
      exact hname h (by decide)
    simpa [text, subexpressions] using hseen
  | verbatim text => exact h.elim
  | string => simp only [text, subexpressions]; decide
  | character => simp only [text, subexpressions]; decide
  | number => simp only [text, subexpressions]; decide
  | integer => simp only [text, subexpressions]; decide
  | boolean => simp only [text, subexpressions]; decide

/-! ### Reports -/

/-- What the answers for all types have in common. -/
structure Mapped.IsReported (root : Text) (m : Mapped) : Prop where
  /-- There is something to say if and only if anything is allowed somewhere. -/
  silent_iff : m.diagnostics = [] ↔ .unknown ∉ m.expr.subexpressions
  /-- There is nothing to say about a type whose values are written as texts. -/
  silent_of_textual : m.expr.kind.isTextual → m.diagnostics = []
  /-- What there is to say are warnings, and the error that the limit was passed if it was. -/
  diagnostics_eq : ∃ warnings, (∀ d ∈ warnings, d.level = .warn) ∧
    m.diagnostics = warnings ++ if m.halted then [tooDeep root] else []

namespace Mapped.IsReported

variable {root : Text}

/-- Nothing is said about an expression of a name, and it does not allow anything. -/
lemma silent {e : Expr} (h : .unknown ∉ e.subexpressions) : IsReported root ⟨e, [], false⟩ :=
  ⟨by simpa using h, fun _ => rfl, [], by simp⟩

/-- An expression that allows anything, with something to say about it. -/
lemma of_ne_nil {e : Expr} {ds warnings : List Diagnostic} {halted : Bool}
    (hunknown : .unknown ∈ e.subexpressions) (hkind : e.kind.isTextual = false) (hne : ds ≠ [])
    (hwarn : ∀ d ∈ warnings, d.level = .warn)
    (hds : ds = warnings ++ if halted then [tooDeep root] else []) :
    IsReported root ⟨e, ds, halted⟩ :=
  ⟨by simp [hne, hunknown], by simp [hkind], warnings, hwarn, hds⟩

/-- The report of an array is that of its members. -/
lemma array {m : Mapped} (h : IsReported root m) : IsReported root m.array := by
  refine ⟨?_, by simp [Mapped.array, Expr.kind, Kind.isTextual], h.diagnostics_eq⟩
  simpa [Mapped.array, Expr.subexpressions] using h.silent_iff

/-- The report of a record, from those of its key and its value. -/
lemma record {key value : Mapped} (hkey : IsReported root key) (hvalue : IsReported root value)
    (text : Text) : IsReported root (mapRecord text key value) := by
  have hunknown : Expr.unknown ∈ (Expr.record .unknown).subexpressions := by
    simp [Expr.subexpressions]
  have hkind : ∀ e : Expr, (Expr.record e).kind.isTextual = false := fun _ => rfl
  obtain ⟨warnings, hwarn, hdiagnostics⟩ := hvalue.diagnostics_eq
  unfold mapRecord
  by_cases hhalted : key.halted
  · -- the limit was passed in the key
    obtain ⟨keyWarnings, hkeyWarn, hkeyDiagnostics⟩ := hkey.diagnostics_eq
    rw [if_pos hhalted] at hkeyDiagnostics ⊢
    exact of_ne_nil hunknown (hkind _) (by simp [hkeyDiagnostics]) hkeyWarn hkeyDiagnostics
  · rw [if_neg hhalted]
    by_cases htextual : key.expr.kind.isTextual
    · rw [if_pos htextual, hkey.silent_of_textual htextual]
      refine ⟨?_, by simp [hkind], warnings, hwarn, hdiagnostics⟩
      simpa [Expr.subexpressions] using hvalue.silent_iff
    · rw [if_neg htextual]
      by_cases hvalueHalted : value.halted
      · -- the limit was passed in the value
        rw [if_pos hvalueHalted] at hdiagnostics ⊢
        exact of_ne_nil hunknown (hkind _) (by simp [hdiagnostics]) hwarn hdiagnostics
      · rw [if_neg hvalueHalted] at hdiagnostics ⊢
        have hall : ∀ d ∈ warnings ++ [unsupportedKey text], d.level = .warn := by
          intro d hd
          rcases List.mem_append.mp hd with hmem | hmem
          · exact hwarn d hmem
          · rw [List.mem_singleton.mp hmem]
            rfl
        exact of_ne_nil hunknown (hkind _) (by simp) hall (by simp [hdiagnostics])

/-- An error is the one that the limit was passed, and it comes last. -/
lemma eq_tooDeep {m : Mapped} (h : IsReported root m) {d : Diagnostic} (hd : d ∈ m.diagnostics)
    (herror : d.level = .error) : d = tooDeep root ∧ m.diagnostics.getLast? = some d := by
  obtain ⟨warnings, hwarn, heq⟩ := h.diagnostics_eq
  rw [heq] at hd ⊢
  rcases List.mem_append.mp hd with hmem | hmem
  · rw [hwarn d hmem] at herror
    cases herror
  · cases hhalted : m.halted with
    | false => simp [hhalted] at hmem
    | true => simp_all

/-- There is at most one error. -/
lemma count_le_one {m : Mapped} (h : IsReported root m) :
    Diagnostic.count .error m.diagnostics ≤ 1 := by
  obtain ⟨warnings, hwarn, heq⟩ := h.diagnostics_eq
  have hnone : warnings.countP (·.level == .error) = 0 := by
    rw [List.countP_eq_zero]
    intro d hd
    rw [hwarn d hd]
    decide
  rw [Diagnostic.count, heq, List.countP_append, hnone]
  cases m.halted with
  | false => simp
  | true => simp [tooDeep]

/-- There is an error if and only if the limit was passed. -/
lemma exists_error_iff {m : Mapped} (h : IsReported root m) :
    (∃ d ∈ m.diagnostics, d.level = .error) ↔ m.halted := by
  obtain ⟨warnings, hwarn, heq⟩ := h.diagnostics_eq
  constructor
  · rintro ⟨d, hd, herror⟩
    by_contra hhalted
    rw [heq, if_neg hhalted, List.append_nil] at hd
    rw [hwarn d hd] at herror
    cases herror
  · intro hhalted
    exact ⟨tooDeep root, by simp [heq, hhalted], rfl⟩

end Mapped.IsReported

/-- Built-in types allow nothing but what they are. -/
lemma unknown_not_mem_scalars : ∀ p ∈ scalars, .unknown ∉ p.2.subexpressions := by
  decide +kernel

/-- Without overrides the answer for every type is reported. -/
theorem Resolver.isReported_mapWithin {r : Resolver} (h : r.overrides = []) (root : Text)
    (allowance : ℕ) (s : Text) : (r.mapWithin root allowance s).IsReported root := by
  have hunknown : ∀ name suggestions,
      Mapped.IsReported root ⟨.unknown, [unknownType name suggestions], false⟩ := by
    intro name suggestions
    exact ⟨by simp [Expr.subexpressions], by simp [Expr.kind, Kind.isTextual],
      [unknownType name suggestions], by simp [unknownType], by simp⟩
  refine mapWithin_induction ?_ ?_ (fun _ hm => hm.array)
    (fun text _ _ hkey hvalue => hkey.record hvalue text) allowance s
  · exact ⟨by simp [Expr.subexpressions], by simp [Expr.kind, Kind.isTextual], [], by simp⟩
  · refine leaf_induction r (fun _ _ => .silent (by simp [Expr.subexpressions])) ?_
      (fun p hp => .silent (unknown_not_mem_scalars p hp))
      (.silent (by simp [Expr.subexpressions])) (fun _ _ => .silent (by simp [Expr.subexpressions]))
      hunknown
    intro name text hmem
    simp [h] at hmem

/-! ### Levels of printed types -/

/-- A name is no collection. -/
lemma Parts.ofText_name {s : Text} (hname : s.all isNamePart) : Parts.ofText s = .name s := by
  simp [Parts.ofText, splitGeneric?_name hname]

/-- The argument of a collection with one. -/
lemma Parts.ofText_list (head : CollectionHead listNames) {inner : Text} (hinner : isTidy inner) :
    Parts.ofText (head.text ++ "<" ++ inner ++ ">") = .list inner := by
  obtain ⟨hstart, hname, -⟩ := isHead_iff.mp (isHead_list head)
  have hgeneric := splitGeneric?_append hstart hname hinner
  simp only [Parts.ofText, hgeneric, collectionName_list, if_true]

/-- The arguments of a collection with a key and a value. -/
lemma Parts.ofText_map (head : CollectionHead mapNames) {key value : Text}
    (hkey : isTidy key) (hvalue : isTidy value) (hkeyNested : Nested .all (· == ascii ',') key)
    (hvalueNested : Nested .all (· == ascii ',') value) :
    Parts.ofText (head.text ++ "<" ++ (key ++ ", " ++ value) ++ ">") = .map key value := by
  obtain ⟨hstart, hname, -⟩ := isHead_iff.mp (isHead_map head)
  obtain ⟨hmap, hlist⟩ := collectionName_map head
  have hgeneric := splitGeneric?_append hstart hname (isTidy_comma hkey hvalue)
  simp only [Parts.ofText, hgeneric, hlist, hmap, if_true, if_false,
    splitTopLevel_comma hkeyNested hvalueNested, trim_blank,
    trim_eq_self (isTrimmed_of_isTidy hkey), trim_eq_self (isTrimmed_of_isTidy hvalue)]

namespace TypeTree

/-- A printed name is no collection. -/
lemma ofText_leaf (name : DottedName isIdent) :
    Parts.ofText (leaf name).text = .name (leaf name).text :=
  Parts.ofText_name (name.text_all fun _ h => h)

/-- The argument of a printed list. -/
lemma ofText_list (head : CollectionHead listNames) (member : TypeTree) :
    Parts.ofText (list head member).text = .list member.text :=
  Parts.ofText_list head member.isTidy_text

/-- The arguments of a printed map. -/
lemma ofText_map (head : CollectionHead mapNames) (key value : TypeTree) :
    Parts.ofText (map head key value).text = .map key.text value.text := by
  simpa [text] using Parts.ofText_map head key.isTidy_text value.isTidy_text key.nested_text
    value.nested_text

/-- The parts of a printed type are those of the tree under its bracket pairs. -/
lemma partsOf_text (t : TypeTree) : partsOf t.text = .ofText t.core.text := by
  rw [partsOf, t.unwrap_text, t.splitArray_text]

/-- A printed type has as many levels as its collections nest. -/
lemma nests_text_iff (t : TypeTree) (n : ℕ) : Nests n t.text ↔ n ≤ t.depth := by
  induction n generalizing t with
  | zero => exact ⟨fun _ => Nat.zero_le _, fun _ => .zero _⟩
  | succ n ihn =>
    rw [nests_succ_iff, t.partsOf_text]
    -- bracket pairs add no level
    induction t with
    | leaf name => simp [core, depth, ofText_leaf, Parts.arguments]
    | array member ih => exact ih
    | list head member _ => simp [core, depth, ofText_list, Parts.arguments, ihn]
    | map head key value _ _ => simp [core, depth, ofText_map, Parts.arguments, ihn]

end TypeTree

/-! ### The report of every type -/

/-- A positive number asks for itself as the limit of nesting. -/
lemma depthLimit_of_pos {limit : ℤ} (h : 0 < limit) : depthLimit limit = limit.toNat := by
  simp [depthLimit, Int.not_le.mpr h]

/-- The mapping of a type without overrides never allows anything silently, and never reports more
than it has to, for every limit of nesting:

* there is nothing to say if and only if anything is allowed nowhere, which can be seen in the
  expression and in its text;
* there is at most one error; it says that the type nests too deeply, and it comes last;
* it is there if and only if some chain of arguments passes the limit, which for a printed type means
  that the collections of the type nest deeper than the limit;
* without it, every larger limit gives the same answer. -/
theorem Resolver.map_reported (table : SymbolTable) (htable : ∀ n ∈ table.names, isIdent n)
    (limit : ℤ) (hlimit : 0 < limit) (s : Text) :
    let m := (Resolver.mk table []).map limit s
    (m.diagnostics = [] ↔ .unknown ∉ m.expr.subexpressions) ∧
      (m.diagnostics = [] ↔ ¬ utf8 "z.unknown()" <:+: m.expr.text) ∧
      Diagnostic.count .error m.diagnostics ≤ 1 ∧
      (∀ d ∈ m.diagnostics, d.level = .error →
        d.code = tooDeepCode ∧ m.diagnostics.getLast? = some d) ∧
      ((∃ d ∈ m.diagnostics, d.level = .error) ↔ Nests (limit.toNat + 1) s) ∧
      (∀ t : TypeTree, t.text = s →
        ((∃ d ∈ m.diagnostics, d.level = .error) ↔ limit < t.depth)) ∧
      ((∀ d ∈ m.diagnostics, d.level ≠ .error) → ∀ larger, limit < larger →
        (Resolver.mk table []).map larger s = m) := by
  intro m
  have hreported : m.IsReported (collapse s) := isReported_mapWithin rfl _ _ s
  have hrefers : m.expr.RefersTo (isIdent ·) (isIdent ·) := by
    refine (refersTo_mapWithin (r := ⟨table, []⟩) rfl _ _ s).mono ?_ ?_
    · exact fun n hn => htable n (List.mem_append_right _ hn)
    · exact fun n hn => htable n (List.mem_append_left _ hn)
  have herror : (∃ d ∈ m.diagnostics, d.level = .error) ↔ Nests (limit.toNat + 1) s := by
    rw [hreported.exists_error_iff, ← depthLimit_of_pos hlimit]
    exact halted_mapWithin_iff _ _ _ s
  refine ⟨hreported.silent_iff, ?_, hreported.count_le_one, ?_, herror, ?_, ?_⟩
  · rw [hreported.silent_iff, Expr.infix_text_iff hrefers]
  · intro d hd hlevel
    obtain ⟨heq, hlast⟩ := hreported.eq_tooDeep hd hlevel
    exact ⟨by rw [heq]; rfl, hlast⟩
  · rintro t rfl
    rw [herror, t.nests_text_iff]
    omega
  · intro hnone larger hlarger
    have hhalted : m.halted = false := by
      by_contra hhalted
      obtain ⟨d, hd, hlevel⟩ := hreported.exists_error_iff.mpr (by simpa using hhalted)
      exact hnone d hd hlevel
    refine mapWithin_eq_of_le _ _ s ?_ hhalted
    rw [depthLimit_of_pos hlimit, depthLimit_of_pos (hlimit.trans hlarger)]
    omega

/-- A map with a key that is not written as a text, at the limit of nesting. -/
theorem Resolver.map_reported_nested :
    let table : SymbolTable := ⟨["User"], ["Role"]⟩
    let s : Text := "Map<List<User>, Set<Role[]>>"
    let m := (Resolver.mk table []).map 2 s
    (∀ n ∈ table.names, isIdent n) ∧ (0 : ℤ) < 2 ∧
      m.diagnostics = [unsupportedKey "List<User>"] ∧ utf8 "z.unknown()" <:+: m.expr.text ∧
      ¬ Nests 3 s ∧ ∀ larger, 2 < larger → (Resolver.mk table []).map larger s = m := by
  intro table s m
  have htable : ∀ n ∈ table.names, isIdent n := by decide
  have hm : m.diagnostics = [unsupportedKey "List<User>"] := by decide +kernel
  have hwarn : ∀ d ∈ m.diagnostics, d.level ≠ .error := by simp [hm, unsupportedKey]
  obtain ⟨-, htext, -, -, herror, -, hlarger⟩ := Resolver.map_reported table htable 2 (by decide) s
  refine ⟨htable, by decide, hm, ?_, ?_, hlarger hwarn⟩
  · by_contra hnone
    have hsilent : m.diagnostics = [] := htext.mpr hnone
    simp [hm] at hsilent
  · intro hnests
    obtain ⟨d, hd, hlevel⟩ := herror.mpr hnests
    exact hwarn d hd hlevel

end DtoSchema.Schema
