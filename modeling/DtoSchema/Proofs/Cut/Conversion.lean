import DtoSchema.Conversion
import DtoSchema.Proofs.Cut.Declarations
import DtoSchema.Proofs.Cut.Schema
import DtoSchema.Proofs.Declaration.Kotlin.Elided

/-!
# Conversion by checked cuts

The conversion of a source is put together from the functions by checked cuts.  It gives the
conversion of every source under all options (`convert_eq`), and so no cut reaches outside of its
text and every loop advances until it stops.

What is found by looking for a place in a text is stated with offsets, for all texts
(`StaysInside`); this includes the annotations of a field and their arguments, from which its
constraints are read.  Functions that go through a text byte by byte, searches by a fixed pattern,
trimming and replacing make no cuts and are taken as they are.
-/

namespace DtoSchema.Cut

open Text Source Declaration

/-! ### Analysis -/

/-- The classes that a source in a dialect declares. -/
def classesIn : Dialect → Text → Checked (List ClassDecl)
  | .kotlin => Kotlin.classes
  | _ => Java.classes

/-- The enumerations that a source in a dialect declares. -/
def enumsIn : Dialect → Text → Checked (List EnumDecl)
  | .kotlin => enums Declaration.Kotlin.enumHeader?
  | _ => enums Declaration.Java.enumHeader?

/-- The declarations of a source in a normalized text of the given dialect. -/
def analysisOf (dialect : Dialect) (forced : Bool) (hints : List Dialect.Hint) (s : Text) :
    Checked Analysis := do
  let enums ← enumsIn dialect s
  let classes ← classesIn dialect s
  return ⟨dialect, forced, hints, enums, classes, .ofDecls classes enums⟩

/-- What is known about a source, given the choice of its dialect. -/
def analyze (choice : Dialect.Choice) (source : Text) : Checked Analysis :=
  let s := Source.normalize source
  match choice.forced? with
  | some dialect => analysisOf dialect true [] s
  | none => analysisOf (Dialect.detect s).dialect false (Dialect.detect s).hints s

/-- What a source is converted to under the given options. -/
def convert (o : Options) (source : Text) : Checked Conversion := do
  let a ← analyze o.dialect source
  let (code, diagnostics) ← generate o.effectiveLayout a.table a.enums a.classes
  return ⟨code, diagnostics⟩

lemma analysisOf_eq (dialect : Dialect) (forced : Bool) (hints : List Dialect.Hint) (s : Text) :
    analysisOf dialect forced hints s = .ok (.ofText dialect forced hints s) := by
  have henums : enumsIn dialect s = .ok (dialect.enums s) := by
    cases dialect <;> exact enums_eq
      (isRegular_header? (by decide) (by decide) (by decide) (by decide) (by decide) (by decide)) s
  have hclasses : classesIn dialect s = .ok (dialect.classes s) := by
    cases dialect with
    | kotlin => exact Kotlin.classes_eq s
    | java | unknown => exact Java.classes_eq s
  rw [analysisOf, henums, ok_bind, hclasses]
  rfl

lemma analyze_eq (choice : Dialect.Choice) (source : Text) :
    analyze choice source = .ok (DtoSchema.analyze choice source) := by
  simp only [analyze, DtoSchema.analyze, analysisOf_eq]
  cases choice.forced? <;> rfl

lemma convert_eq (o : Options) (source : Text) :
    convert o source = .ok (DtoSchema.convert o source) := by
  rw [convert, analyze_eq, ok_bind, generate_eq]
  rfl

/-! ### Places inside of a text -/

/-- An annotation is what stands between two offsets of a text. -/
structure Covers (s : Text) (a : Mark) (span : ℕ × ℕ) : Prop where
  /-- It has at least one byte. -/
  lt : span.1 < span.2
  /-- It ends inside of the text. -/
  le_length : span.2 ≤ s.length
  /-- Its text is the slice between the offsets. -/
  slice_eq : slice s span.1 span.2 = .ok a.text

lemma covers_of_drop {s r : Text} {a : Mark} {start : ℕ} (h : s.drop start = a.text ++ r)
    (hpos : 0 < a.text.length) : Covers s a (start, start + a.text.length) := by
  have hlength := congrArg List.length h
  rw [List.length_drop, List.length_append] at hlength
  exact ⟨by simp only; omega, by simp only; omega, slice_of_drop (by omega) h⟩

/-- The annotations of a text stand one behind the other. -/
lemma exists_spans (s : Text) :
    ∃ spans, List.Forall₂ (Covers s) (Mark.readAll s) spans ∧
      spans.Pairwise fun p q => p.2 ≤ q.1 := by
  have hfrom : ∀ n i, s.length - i = n → ∃ spans,
      List.Forall₂ (Covers s) (Mark.readAll (s.drop i)) spans ∧
        (∀ p ∈ spans, i ≤ p.1) ∧ spans.Pairwise fun p q => p.2 ≤ q.1 := by
    intro n
    induction n using Nat.strong_induction_on with
    | _ n ih =>
      intro i hn
      cases hdrop : s.drop i with
      | nil => exact ⟨[], .nil, by simp, .nil⟩
      | cons b t =>
        have hlength := congrArg List.length hdrop
        rw [List.length_drop, List.length_cons] at hlength
        rw [← hdrop]
        rcases readMark_cases (s.drop i) with ⟨hnone, -⟩ | ⟨a, r, hr, hpos, hsome, -⟩
        · obtain ⟨spans, hcovers, hle, hpairs⟩ := ih _ (by omega) (i + 1) rfl
          rw [← List.drop_drop, hdrop] at hcovers
          rw [hdrop] at hnone ⊢
          refine ⟨spans, ?_, fun p hp => by have := hle p hp; omega, hpairs⟩
          rwa [readAll_none hnone]
        · obtain ⟨spans, hcovers, hle, hpairs⟩ := ih _ (by omega) (i + a.text.length) rfl
          rw [← List.drop_drop, hr, List.drop_left] at hcovers
          refine ⟨(i, i + a.text.length) :: spans, ?_, ?_, List.pairwise_cons.mpr ⟨hle, hpairs⟩⟩
          · rw [hr, readAll_mark (hr ▸ hsome) (List.length_pos_iff.mp hpos)]
            exact .cons (covers_of_drop hr hpos) hcovers
          · intro p hp
            rcases List.mem_cons.mp hp with rfl | hp
            · exact le_rfl
            · have := hle p hp
              omega
  obtain ⟨spans, hcovers, -, hpairs⟩ := hfrom _ 0 rfl
  exact ⟨spans, hcovers, hpairs⟩

/-- A byte that stands behind an offset of a text has an offset of its own. -/
lemma exists_offset {s r : Text} {b : UInt8} {start : ℕ} (h : b :: r <:+ s.drop start) :
    ∃ i, start ≤ i ∧ i < s.length ∧ s.drop i = b :: r := by
  obtain ⟨a, ha⟩ := h
  have hlength := congrArg List.length ha
  rw [List.length_append, List.length_cons, List.length_drop] at hlength
  exact ⟨start + a.length, by omega, by omega, by rw [← List.drop_drop, ← ha, List.drop_left]⟩

/-- What is found by looking for a place in a text is found inside of it, and the loops that look
for it come to their ends. -/
structure StaysInside (s : Text) : Prop where
  /-- An annotation is the slice from its sign to a later offset. -/
  mark : ∀ start a, Mark.read? (s.drop start) = some a →
    readMark (s.drop start) = .ok (some (a, s.drop (start + a.text.length))) ∧
      Covers s a (start, start + a.text.length)
  /-- The annotations of a text are slices of it, one behind the other. -/
  marks : readAll s = .ok (Mark.readAll s) ∧ ∃ spans,
    List.Forall₂ (Covers s) (Mark.readAll s) spans ∧ spans.Pairwise fun p q => p.2 ≤ q.1
  /-- An argument is cut at its equals sign. -/
  argument : argument s = .ok (.ofPart s)
  /-- A block is closed behind the offset where it opens. -/
  block : ∀ opening closing (start : ℤ) content stop,
    readBalancedAt? opening closing s start = some (content, stop) →
      start < stop ∧ stop < s.length ∧ slice s (start.toNat + 1) stop = .ok content
  /-- The annotations at the start of a text end inside of it. -/
  leading : afterLeading s = .ok (s.drop (Mark.leadingEnd s)) ∧ Mark.leadingEnd s ≤ s.length
  /-- Modifiers are cut off the text that is left. -/
  modifiers : ∀ isModifier, isModifier [] = false →
    leadingMarks spaces isModifier s = .ok (leadingMarks? spaces isModifier s)
  /-- A body starts at an offset of the text. -/
  body : ∀ start, bodyStart (s.drop start) = .ok (bodyStart? (s.drop start)) ∧
    ∀ r, bodyStart? (s.drop start) = some r → ∃ i, start ≤ i ∧ i < s.length ∧ s.drop i = r
  /-- The parameters of a constructor are closed at an offset of the text. -/
  parameters : ∀ start, Kotlin.primaryConstructor (s.drop start) =
      .ok (Declaration.Kotlin.primaryConstructor? (s.drop start)) ∧
    ∀ params rest, Declaration.Kotlin.primaryConstructor? (s.drop start) = some (params, rest) →
      ∃ i, start ≤ i ∧ i < s.length ∧ s.drop i = ascii ')' :: rest
  /-- The statements of a body are cut off it one by one. -/
  statements : Java.statements s = .ok (Declaration.Java.statements s)
  /-- A top level byte is found at an offset of the text. -/
  index : ∀ target i, topLevelIndex? target s = some i → i < s.length
  /-- A semicolon is found at an offset of the text. -/
  semicolon : ∀ i, topLevelSemicolon? s = some i → i < s.length
  /-- The word at the start of a trimmed text starts it. -/
  word : leadingIdent (trim s) <+: trim s
  /-- The word behind gaps starts what stands there. -/
  wordAt : ∀ i, leadingIdent (s.drop (skipGapsAt s i)) <+: s.drop (skipGapsAt s i)

/-- Where no gap stands, a text starts with its leading identifier. -/
lemma leadingIdent_isPrefix {s : Text} (h : s.head?.any isGap = false) : leadingIdent s <+: s := by
  obtain ⟨r, hr, -⟩ := exists_identAt s
  rw [leadingIdent, skipGaps_eq_self h]
  exact ⟨r, hr.symm⟩

lemma staysInside (s : Text) : StaysInside s where
  mark start a h := by
    rcases readMark_cases (s.drop start) with ⟨hnone, -⟩ | ⟨b, r, hr, hpos, hsome, hread⟩
    · simp [hnone] at h
    · obtain rfl : b = a := Option.some.inj (hsome.symm.trans h)
      refine ⟨?_, covers_of_drop hr hpos⟩
      rw [hread, ← List.drop_drop, hr, List.drop_left]
  marks := ⟨readAll_eq s, exists_spans s⟩
  argument := argument_eq s
  block opening closing start content stop h := by
    cases start with
    | negSucc => exact absurd h (by simp [readBalancedAt?])
    | ofNat start =>
      obtain ⟨⟨content, rest⟩, hread, heq⟩ := Option.map_eq_some_iff.mp h
      obtain ⟨rfl, rfl⟩ := Prod.mk.inj heq
      have hsplit := eq_of_readBalanced? hread
      have hlength := congrArg List.length hsplit
      simp only [List.length_drop, List.length_cons, List.length_append] at hlength
      have hdrop : s.drop (start + 1) = content ++ closing :: rest := by
        rw [← List.drop_drop, hsplit]
        rfl
      have hslice := slice_of_drop (show start + 1 ≤ s.length by omega) hdrop
      refine ⟨by simp only [Int.ofNat_eq_natCast]; omega, by omega, ?_⟩
      rwa [Nat.add_right_comm] at hslice
  leading := by
    have hdrop : s.drop (Mark.leadingEnd s) = Mark.afterLeading s :=
      (List.suffix_iff_eq_drop.mp (afterLeading_isSuffix s)).symm
    exact ⟨by rw [afterLeading_eq, hdrop], Nat.sub_le _ _⟩
  modifiers _ hempty := leadingMarks_eq isCode_spaces hempty s
  body start := by
    refine ⟨bodyStart_eq _, fun r h => ?_⟩
    obtain ⟨t, rfl, hsuffix⟩ := exists_of_bodyStart? h
    exact exists_offset hsuffix
  parameters start := by
    refine ⟨Kotlin.primaryConstructor_eq _, fun params rest h => ?_⟩
    exact exists_offset (Kotlin.isSuffix_of_primaryConstructor? h)
  statements := Java.statements_eq s
  index _ _ h := lt_length_of_topLevelFrom h
  semicolon _ h := lt_length_of_semicolon h
  word := leadingIdent_isPrefix (Declaration.Kotlin.head?_trim s)
  wordAt i := by
    have hskip : s.drop (skipGapsAt s i) = skipGaps (s.drop i) := by
      have hleft := @List.drop_left _ ((s.drop i).takeWhile isGap) (skipGaps (s.drop i))
      rw [skipGaps, List.takeWhile_append_dropWhile] at hleft
      rw [skipGapsAt, ← List.drop_drop, hleft, skipGaps]
    rw [hskip]
    exact leadingIdent_isPrefix (head?_skipGaps _)

end DtoSchema.Cut
