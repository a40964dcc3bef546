import DtoSchema.Proofs.Source.Name

/-!
# Printed code

The scanners of a source differ in the brackets that they regard and in the bytes at which they cut.
`Coded s` says that `s` is nested for all of them at once: for every family of brackets and every
class of separators that suits printed code, the brackets of `s` match and no separator stands
outside of them.  What is printed is built from pieces that are coded, so it is shown once that a
piece is coded, and every scanner then passes over it.
-/

namespace DtoSchema.Source

open Text

/-! ### Families that suit printed code -/

/-- The bytes that are printed outside of literals, apart from brackets and commas. -/
def isCodeByte (b : UInt8) : Bool := isNamePart b || b ∈ utf8 "@:?=- "

/-- The bytes of words are printed. -/
lemma isCodeByte_of_isWord {b : UInt8} (h : isWord b) : isCodeByte b := by
  simp [isCodeByte, isNamePart_of_isWord h]

/-- The brackets that are printed around lists. -/
def listBrackets : List (UInt8 × UInt8) :=
  [(ascii '(', ascii ')'), (ascii '<', ascii '>'), (ascii '[', ascii ']')]

/-- Code can be printed such that its brackets match in the family and no separator stands outside
of them. -/
structure Suits (brackets : Brackets) (sep : UInt8 → Bool) : Prop where
  /-- The bytes of code are plain and separate nothing. -/
  code : ∀ b, isCodeByte b = true → brackets.isPlain b ∧ sep b = false
  /-- A comma is plain. -/
  comma : brackets.isPlain (ascii ',')
  /-- Lists are closed. -/
  closes : listBrackets.all (brackets.closes sep)

/-- Cutting at commas suits. -/
lemma suits_comma : Suits .all (· == ascii ',') where
  code := Brackets.passes_of_class [ascii ','] (by simp) (by decide) (by decide)
  comma := by decide
  closes := by decide

/-- Cutting at the ends of lines suits. -/
lemma suits_lineEnd : Suits .parens (fun b => b == ascii '\n' || b == ascii ';') where
  code := Brackets.passes_of_class [ascii '\n', ascii ';'] (by simp) (by decide) (by decide)
  comma := by decide
  closes := by decide

/-- Looking for braces suits. -/
lemma suits_brace : Suits ⟨[], []⟩ isBrace where
  code := Brackets.passes_of_class [ascii '\x7b', ascii '\x7d'] (by simp [isBrace]) (by decide)
    (by decide)
  comma := by decide
  closes := by decide

/-- Looking for semicolons and blocks outside of parentheses suits. -/
lemma suits_semicolon :
    Suits (.single (ascii '(') (ascii ')')) (fun b => b == ascii ';' || isBrace b) where
  code := Brackets.passes_of_class [ascii ';', ascii '\x7b', ascii '\x7d'] (by simp [isBrace])
    (by decide) (by decide)
  comma := by decide
  closes := by decide

/-- Braces suit. -/
lemma suits_braces : Suits .braces fun _ => false where
  code := Brackets.passes_of_class [] (by simp) (by decide) (by decide)
  comma := by decide
  closes := by decide

/-- Brackets other than angle brackets suit. -/
lemma suits_grouping : Suits .grouping fun _ => false where
  code := Brackets.passes_of_class [] (by simp) (by decide) (by decide)
  comma := by decide
  closes := by decide

/-- Looking for slashes suits. -/
lemma suits_slash : Suits ⟨[], []⟩ (· == ascii '/') where
  code := Brackets.passes_of_class [ascii '/'] (by simp) (by decide) (by decide)
  comma := by decide
  closes := by decide

/-! ### Coded texts -/

/-- The text is nested whatever a scanner looks at. -/
def Coded (s : Text) : Prop := ∀ brackets sep, Suits brackets sep → Nested brackets sep s

/-- The text is nested whatever a scanner looks at, commas apart. -/
def CodedList (s : Text) : Prop :=
  ∀ brackets sep, Suits brackets sep → Nested brackets (fun b => sep b && b != ascii ',') s

namespace Coded

variable {s t : Text}

/-- The empty text is coded. -/
lemma nil : Coded [] := fun _ _ _ => .nil

/-- Two coded texts are coded together. -/
lemma append (hs : Coded s) (ht : Coded t) : Coded (s ++ t) :=
  fun brackets sep h => (hs brackets sep h).append (ht brackets sep h)

/-- Bytes of code are coded. -/
lemma of_all (h : s.all isCodeByte) : Coded s :=
  fun _ _ hsuits => .of_plain <| List.all_eq_true.mpr fun b hb => by
    obtain ⟨hplain, hsep⟩ := hsuits.code b (List.all_eq_true.mp h b hb)
    simp [hplain, hsep]

/-- A literal is coded. -/
lemma quote {q : UInt8} (hq : isQuote q) (ht : isLiteralContent q t) : Coded (q :: (t ++ [q])) :=
  fun _ _ _ => .quote hq ht

/-- A coded text is a coded list. -/
lemma list (h : Coded s) : CodedList s :=
  fun brackets sep hsuits => (h brackets sep hsuits).weaken fun b hb => by
    simp only [Bool.and_eq_true] at hb
    exact hb.1

/-- A list in brackets is coded. -/
lemma surround {p : UInt8 × UInt8} (hp : p ∈ listBrackets) (hs : CodedList s) :
    Coded (p.1 :: (s ++ [p.2])) := by
  intro brackets sep hsuits
  have hclose := List.all_eq_true.mp hsuits.closes p hp
  simp only [Brackets.closes, Bool.or_eq_true, decide_eq_true_eq, Bool.and_eq_true,
    Bool.not_eq_true'] at hclose
  rcases hclose with hpair | ⟨⟨⟨⟨ho, hc⟩, hso⟩, hsc⟩, hcomma⟩
  · exact .enclose hpair (hs brackets sep hsuits).balanced
  · -- the brackets are plain bytes here, and the commas between them separate nothing
    have hinner : Nested brackets sep s := (hs brackets sep hsuits).weaken fun b hb => by
      have hne : b ≠ ascii ',' := by
        rintro rfl
        simp [hcomma] at hb
      simp [hb, hne]
    have hend : Nested brackets sep [p.2] := .byte hc hsc .nil
    exact .byte ho hso (hinner.append hend)

end Coded

namespace CodedList

variable {s t : Text}

/-- Two lists are a list together. -/
lemma append (hs : CodedList s) (ht : CodedList t) : CodedList (s ++ t) :=
  fun brackets sep h => (hs brackets sep h).append (ht brackets sep h)

/-- A comma with a space behind it is a list. -/
lemma comma : CodedList (utf8 ", ") := by
  intro brackets sep hsuits
  have hspace := hsuits.code (ascii ' ') (by decide)
  rw [utf8_commaSpace]
  exact .byte hsuits.comma (by simp) (.byte hspace.1 (by simp [hspace.2]) .nil)

/-- Coded texts with commas between them are a list. -/
lemma join {parts : List Text} (h : ∀ p ∈ parts, Coded p) : CodedList (join ", " parts) := by
  induction parts with
  | nil => exact Coded.nil.list
  | cons p ps ih =>
    obtain ⟨hp, hps⟩ := List.forall_mem_cons.mp h
    cases ps with
    | nil => simpa [Text.join] using hp.list
    | cons q qs =>
      rw [join_cons_cons]
      exact (hp.list.append comma).append (ih hps)

end CodedList

/-! ### Lists are cut at their commas -/

/-- A text in front of a joined list is a text in front of its first part. -/
lemma append_join (s sep p : Text) (ps : List Text) :
    s ++ join sep (p :: ps) = join sep ((s ++ p) :: ps) := by
  cases ps with
  | nil => simp [join]
  | cons q qs => simp [join_cons_cons]

/-- The parts of a printed list; the space behind a comma belongs to the part that follows. -/
lemma segments_join {p : Text} {ps : List Text} (hp : Coded p) (hps : ∀ q ∈ ps, Coded q) :
    segments .all (· == ascii ',') {} (join ", " (p :: ps)) =
      p :: ps.map fun q => ascii ' ' :: q := by
  have hB : Brackets.all.isProper := by decide
  induction ps generalizing p with
  | nil => simpa [join] using segments_nested_self hB (hp _ _ suits_comma)
  | cons q qs ih =>
    obtain ⟨hq, hqs⟩ := List.forall_mem_cons.mp hps
    have hspaced : Coded (ascii ' ' :: q) :=
      (Coded.of_all (s := [ascii ' ']) (by decide)).append hq
    have htext :
        join ", " (p :: q :: qs) = p ++ ascii ',' :: join ", " ((ascii ' ' :: q) :: qs) := by
      have happend := append_join [ascii ' '] (utf8 ", ") q qs
      simp only [List.singleton_append] at happend
      rw [← happend, join_cons_cons]
      simp [utf8_commaSpace]
    rw [htext, segments_nested_cut hB (hp _ _ suits_comma) (by decide) (by decide),
      ih hspaced hqs, List.map_cons]

/-- A printed list is cut into its parts. -/
lemma splitTopLevel_join {p : Text} {ps : List Text} (hp : Coded p) (hne : p ≠ [])
    (hps : ∀ q ∈ ps, Coded q) :
    splitTopLevel (ascii ',') (join ", " (p :: ps)) = p :: ps.map fun q => ascii ' ' :: q := by
  have hlast : (p :: ps.map fun q => ascii ' ' :: q).getLast? ≠ some [] := by
    cases ps using List.reverseRecOn with
    | nil => simpa using hne
    | append_singleton ps q => simp [List.getLast?_cons]
  rw [splitTopLevel, segments_join hp hps, dropEmptyEnd, if_neg hlast]

end DtoSchema.Source
