import DtoSchema.Proofs.Declaration.Kotlin.Property

/-!
# Printed class bodies of the Kotlin dialect

A member of a class is a property, whose annotations stand on its own line or on lines before it, or
a function with its block.  Reading blanks the blocks and cuts at line ends; a line of annotations is
kept until the property comes.

`scan_property` follows the lines of one property: the invariant is that the annotations kept so far
and those of the current line are the ones that were printed.  `scan_blanks` follows the lines of a
blanked block, none of which declares anything.
-/

namespace DtoSchema.Declaration.Kotlin

open Text Source

variable {L : Lexicon}

/-! ### Statements -/

/-- The bytes that end a statement. -/
def isLineEnd (b : UInt8) : Bool := b == ascii '\n' || b == ascii ';'

/-- The properties that the statements of a text declare, given the annotations kept so far. -/
def scan (pending s : Text) : List Field := propertiesFrom pending (segments .parens isLineEnd {} s)

/-- An empty statement at the end declares nothing. -/
lemma propertiesFrom_dropEmptyEnd (pending : Text) (ss : List Text) :
    propertiesFrom pending (dropEmptyEnd ss) = propertiesFrom pending ss := by
  have hempty : ∀ (ss : List Text) (pending : Text),
      propertiesFrom pending (ss ++ [[]]) = propertiesFrom pending ss := by
    intro ss
    induction ss with
    | nil => intro pending; rfl
    | cons s ss ih => intro pending; simp only [List.cons_append, propertiesFrom, ih]
  unfold dropEmptyEnd
  split
  · rename_i hlast
    obtain ⟨ss, rfl⟩ := List.getLast?_eq_some_iff.mp hlast
    rw [List.dropLast_concat, hempty]
  · rfl

/-- The properties of a body are those of its statements, once its blocks are blanked. -/
lemma bodyFields_eq_scan (body : Text) : bodyFields body = scan [] (blankFrom {} body) :=
  propertiesFrom_dropEmptyEnd [] _

/-- A line is a statement. -/
lemma scan_line {s : Text} (hs : Nested .parens isLineEnd s) (pending t : Text) :
    scan pending (s ++ ascii '\n' :: t) =
      propertiesFrom pending (s :: segments .parens isLineEnd {} t) := by
  rw [scan, segments_nested_cut (by decide) hs (by decide) (by decide)]

/-! ### Annotations on lines of their own -/

/-- Annotations as they are written in front of a member, each with a line end or a space behind
it. -/
def leadTexts (marks : List (MarkSyntax L × Bool)) : Text :=
  marks.flatMap fun m => m.1.text ++ if m.2 then "\n" else " "

/-- What follows printed annotations is looked at next. -/
lemma afterLeading_texts (as : List (MarkSyntax L)) {t : Text} (ht : t.head?.all isMarkStart) :
    Mark.afterLeading (MarkSyntax.texts as ++ t) = Mark.afterLeading t := by
  induction as with
  | nil => rfl
  | cons a as ih =>
    have hcons : MarkSyntax.texts (a :: as) ++ t =
        a.text ++ ascii ' ' :: (MarkSyntax.texts as ++ t) := by
      simp [MarkSyntax.texts, utf8_space]
    rw [hcons, a.afterLeading_text (by decide) (MarkSyntax.head?_texts as ht), ih]

/-- A text that starts with neither an annotation nor a gap has none in front. -/
lemma afterLeading_eq_self {b : UInt8} (hgap : isGap b = false) (hb : b ≠ ascii '@') (s : Text) :
    Mark.afterLeading (b :: s) = b :: s := by
  simp [Mark.afterLeading, Mark.afterLeadingFrom, hgap, read?_eq_none hb]

/-- An annotation ends visibly. -/
lemma getLast?_mark (a : MarkSyntax L) : a.text.getLast?.any isInk := by
  unfold MarkSyntax.text MarkSyntax.parenthesized
  cases a.arguments with
  | none =>
    rw [Option.elim_none, List.append_nil]
    exact getLast?_append_any _ (IsTypeRun.of_name a.name).ends
  | some arguments => exact getLast?_append_any _ (getLast?_append_any _ (by decide))

/-- Annotations with something behind them start visibly. -/
lemma head?_texts_append (as : List (MarkSyntax L)) {t : Text} (ht : t.head?.any isInk) :
    (MarkSyntax.texts as ++ t).head?.any isInk := by
  cases as with
  | nil => exact ht
  | cons a as =>
    obtain ⟨s, hs⟩ := a.text_eq_cons
    have hat : isInk (ascii '@') := by decide
    simp [MarkSyntax.texts, hs, hat]

/-- Two lists of annotations are written one behind the other. -/
lemma texts_append (as bs : List (MarkSyntax L)) :
    MarkSyntax.texts (as ++ bs) = MarkSyntax.texts as ++ MarkSyntax.texts bs :=
  List.flatMap_append

/-- A line of annotations is kept for the next one. -/
lemma propertiesFrom_marks (kept line : List (MarkSyntax L)) (a : MarkSyntax L) (ss : List Text) :
    propertiesFrom (MarkSyntax.texts kept) ((MarkSyntax.texts line ++ a.text) :: ss) =
      propertiesFrom (MarkSyntax.texts (kept ++ line ++ [a])) ss := by
  obtain ⟨s, hs⟩ := a.text_eq_cons
  have hhead : a.text.head?.any isInk := by
    have hat : isInk (ascii '@') := by decide
    simp [hs, hat]
  have hsolid : isSolid (MarkSyntax.texts line ++ a.text) :=
    isSolid_iff.mpr ⟨head?_texts_append line hhead, getLast?_append_any _ (getLast?_mark a)⟩
  obtain ⟨hne, htrimmed⟩ := isTrimmed_of_isSolid hsolid
  have hafter : Mark.afterLeading (MarkSyntax.texts line ++ a.text) = [] := by
    rw [afterLeading_texts line (by simp [hs, isMarkStart]), a.afterLeading_text_self]
  rw [propertiesFrom]
  simp only [trim_eq_self htrimmed, List.isEmpty_iff, hne, hafter, if_true, if_false]
  simp [MarkSyntax.texts]

/-- A line with a property declares it with the annotations that were kept and its own. -/
lemma propertiesFrom_property (kept line : List (MarkSyntax L)) {p : PropertySyntax L}
    (h : p.typed.IsClear) (ss : List Text) :
    propertiesFrom (MarkSyntax.texts kept) ((MarkSyntax.texts line ++ p.text) :: ss) =
      p.field (kept ++ line) :: propertiesFrom [] ss := by
  have hhead : p.text.head?.any isIdentStart :=
    head?_modifierTexts areWords_modifiers p.modifiers p.identAt_declaration.1
  have hsolid : isSolid (MarkSyntax.texts line ++ p.text) :=
    isSolid_iff.mpr ⟨head?_texts_append line (head?_isInk_of_isIdentStart hhead),
      getLast?_append_any _ p.getLast?_text⟩
  obtain ⟨hne, htrimmed⟩ := isTrimmed_of_isSolid hsolid
  have hafter : Mark.afterLeading (MarkSyntax.texts line ++ p.text) ≠ [] := by
    cases hcase : p.text with
    | nil => simp [hcase] at hhead
    | cons b s =>
      have hb : isIdentStart b := by simpa [hcase] using hhead
      have hstart := isMarkStart_of_isIdentStart hb
      rw [afterLeading_texts line (by simp [hstart]),
        afterLeading_eq_self (of_isMarkStart hstart).2.1 (ne_of_class hb (by decide))]
      simp
  have hproperty : property? (MarkSyntax.texts kept ++ (MarkSyntax.texts line ++ p.text)) =
      some (p.field (kept ++ line)) := by
    rw [← List.append_assoc, ← texts_append, p.property?_text h]
  rw [propertiesFrom]
  simp [trim_eq_self htrimmed, hne, hafter, hproperty]

/-- A printed property is declared with its annotations, whether they stand on its line or not. -/
lemma scan_property (marks : List (MarkSyntax L × Bool)) {p : PropertySyntax L}
    (h : p.typed.IsClear) (kept line : List (MarkSyntax L)) (t : Text) :
    scan (MarkSyntax.texts kept)
        (MarkSyntax.texts line ++ (leadTexts marks ++ (p.text ++ ascii '\n' :: t))) =
      p.field (kept ++ line ++ marks.map Prod.fst) :: scan [] t := by
  have hspace : utf8 " " = [ascii ' '] := by decide
  induction marks generalizing kept line with
  | nil =>
    have hnested : Nested .parens isLineEnd (MarkSyntax.texts line ++ p.text) :=
      ((MarkSyntax.coded_texts line).append p.coded) _ _ suits_lineEnd
    rw [leadTexts, List.flatMap_nil, List.nil_append, ← List.append_assoc, scan_line hnested,
      propertiesFrom_property kept line h, List.map_nil, List.append_nil]
    rfl
  | cons m marks ih =>
    obtain ⟨a, ends⟩ := m
    cases ends with
    | false =>
      -- the annotation joins those of the current line
      have htext : MarkSyntax.texts line ++
          (leadTexts ((a, false) :: marks) ++ (p.text ++ ascii '\n' :: t)) =
          MarkSyntax.texts (line ++ [a]) ++ (leadTexts marks ++ (p.text ++ ascii '\n' :: t)) := by
        simp [leadTexts, MarkSyntax.texts]
      rw [htext, ih]
      simp
    | true =>
      -- the line ends with the annotation, and all of its annotations are kept
      have hnested : Nested .parens isLineEnd (MarkSyntax.texts line ++ a.text) :=
        ((MarkSyntax.coded_texts line).append a.coded) _ _ suits_lineEnd
      have htext : MarkSyntax.texts line ++
          (leadTexts ((a, true) :: marks) ++ (p.text ++ ascii '\n' :: t)) =
          MarkSyntax.texts line ++ a.text ++
            ascii '\n' :: (leadTexts marks ++ (p.text ++ ascii '\n' :: t)) := by
        simp [leadTexts, utf8_newline]
      have hrest := ih (kept ++ line ++ [a]) []
      rw [htext, scan_line hnested, propertiesFrom_marks]
      simpa [scan, MarkSyntax.texts] using hrest

/-! ### Functions -/

/-- A statement that starts with another word, or with none, declares nothing. -/
lemma propertiesFrom_foreign {s : Text} {b : UInt8} {r : Text} (htrim : trim s = b :: r)
    (hsolid : isSolid (b :: r)) (hgap : isGap b = false) (hb : b ≠ ascii '@')
    (hword : isForeign (identAt (b :: r))) (ss : List Text) :
    propertiesFrom [] (s :: ss) = propertiesFrom [] ss := by
  simp only [isForeign, Bool.and_eq_true, decide_eq_true_eq, bne_iff_ne] at hword
  obtain ⟨⟨hmodifier, hval⟩, hvar⟩ := hword
  rw [isSolid_iff] at hsolid
  have hink : isInk b := by simpa using hsolid.1
  have hident : leadingIdent (b :: r) = identAt (b :: r) := by simp [leadingIdent, skipGaps, hgap]
  have hmarks : leadingMarks? spaces (· ∈ Kotlin.modifiers) (b :: r) = some ([], b :: r) :=
    leadingMarks?_stop areBlank_spaces hink hb (by simpa using hmodifier)
  have hproperty : property? (b :: r) = none := by
    simp only [property?, trimEnd_of_getLast? hsolid.2, hmarks, Option.bind_eq_bind,
      Option.bind_some, hident, hval, hvar, or_self, guard_false]
    rfl
  rw [propertiesFrom]
  simp [htrim, afterLeading_eq_self hgap hb, hproperty]

/-- Lines that start like this and go on with spaces declare nothing, whether a brace ends them or
not. -/
def Inert (u : Text) : Prop :=
  ∀ (n : ℕ) (ss : List Text),
    propertiesFrom [] ((u ++ List.replicate n (ascii ' ')) :: ss) = propertiesFrom [] ss ∧
    propertiesFrom [] ((u ++ List.replicate n (ascii ' ') ++ [ascii '\x7d']) :: ss) =
      propertiesFrom [] ss

/-- An empty line declares nothing, and neither does a closing brace. -/
lemma inert_nil : Inert [] := by
  intro n ss
  have htrim : trim (List.replicate n (ascii ' ') ++ [ascii '\x7d']) = [ascii '\x7d'] := by
    induction n with
    | zero => decide
    | succ n ih => simpa [List.replicate_succ] using ih
  have hempty : trim (List.replicate n (ascii ' ')) = [] := trim_append_spaces (s := []) rfl n
  refine ⟨?_, ?_⟩
  · rw [List.nil_append, propertiesFrom]
    simp [hempty]
  · exact propertiesFrom_foreign htrim (by decide) (by decide) (by decide) (by decide) ss

/-- The lines of a blanked block declare nothing. -/
lemma scan_blanks {u : Text} (hu : Inert u) (hnested : Nested .parens isLineEnd u) (n : ℕ)
    (body t : Text) :
    scan [] (u ++ List.replicate n (ascii ' ') ++
      (blanks body ++ ascii '\x7d' :: ascii '\n' :: t)) = scan [] t := by
  have hspaces : ∀ n : ℕ, Nested .parens isLineEnd (List.replicate n (ascii ' ')) := fun n =>
    .of_plain (List.all_eq_true.mpr fun b hb => by
      obtain rfl := List.eq_of_mem_replicate hb
      decide)
  have hclose : Nested .parens isLineEnd [ascii '\x7d'] := .of_plain (by decide)
  induction body generalizing u n with
  | nil =>
    have hline := scan_line ((hnested.append (hspaces n)).append hclose) [] t
    rw [List.append_assoc _ [ascii '\x7d']] at hline
    rw [blanks, List.map_nil, List.nil_append]
    exact hline.trans (hu n _).2
  | cons b body ih =>
    by_cases hb : b = ascii '\n'
    · have hline := scan_line (hnested.append (hspaces n)) []
        (blanks body ++ ascii '\x7d' :: ascii '\n' :: t)
      have hrest := ih inert_nil .nil 0
      rw [(hu n _).1] at hline
      simpa [blanks, hb] using hline.trans hrest
    · have hrest := ih hu hnested (n + 1)
      rw [List.replicate_succ'] at hrest
      simpa [blanks, hb] using hrest

/-- A function with its block. -/
structure FunctionSyntax (L : Lexicon) where
  /-- The name. -/
  name : L.Name
  /-- The parameters in order. -/
  params : List (Param L)
  /-- The type of the result. -/
  result : TypeSyntax L
  /-- The result may be missing. -/
  nullable : Bool
  /-- The content of the block. -/
  body : {s : Text // IsBlock s}

/-- Parameters as they are written, in parentheses. -/
def paramsText (params : List (Param L)) : Text :=
  ascii '(' :: (join ", " (params.map Param.text) ++ [ascii ')'])

/-- Parameters are a list. -/
lemma codedList_params (params : List (Param L)) :
    CodedList (join ", " (params.map Param.text)) := by
  refine .join fun s hs => ?_
  obtain ⟨q, -, rfl⟩ := List.mem_map.mp hs
  exact q.coded

/-- Parameters in parentheses are coded. -/
lemma coded_paramsText (params : List (Param L)) : Coded (paramsText params) :=
  .surround (p := (ascii '(', ascii ')')) (by decide) (codedList_params params)

/-- Parameters in parentheses hold no keyword that is foreign to properties. -/
lemma free_paramsText {k : Text} (hk : L.Avoids k) (hforeign : isForeign k)
    (params : List (Param L)) : Free k (paramsText params) := by
  have hlist : Free k (join ", " (params.map Param.text)) := by
    refine .join_sep hk.keyword (fun s hs => ?_) (by decide)
    obtain ⟨q, -, rfl⟩ := List.mem_map.mp hs
    exact q.free hk hforeign
  exact .sep_append hk.keyword (s := [ascii '(']) (by decide)
    (hlist.append_sep hk.keyword (by decide))

namespace FunctionSyntax

variable (f : FunctionSyntax L)

/-- The function up to its block. -/
def header : Text :=
  "fun " ++ f.name.1 ++ paramsText f.params ++ ": " ++ declaredType f.result f.nullable ++ " "

/-- The function as it is written. -/
def text : Text := f.header ++ blockText f.body.1

/-- What stands before the block of a function is coded. -/
lemma coded_header : Coded f.header := by
  have hfun : Coded (utf8 "fun ") := .of_all (by decide)
  have hcolon : Coded (utf8 ": ") := .of_all (by decide)
  have hspace : Coded (utf8 " ") := .of_all (by decide)
  exact ((((hfun.append (coded_of_isName f.name.2)).append (coded_paramsText f.params)).append
    hcolon).append (isDeclared_declaredType f.result f.nullable).coded).append hspace

/-- A function holds no header of a class. -/
lemma free_text (hk : L.Avoids "class") : Free "class" f.text := by
  have hfun : Free "class" (utf8 "fun") := .of_word hk.keyword (by decide) (by decide)
  have hname : Free "class" (f.name.1 ++ paramsText f.params) :=
    (free_of_isName hk.toReserves f.name.2).append (free_paramsText hk (by decide) f.params)
      (apart_sep (s := [ascii '(']) (by decide) _ _)
  have hresult := ((isDeclared_declaredType f.result f.nullable).free _ hk.toReserves).separated
    hk.keyword (s := " ") (by decide) (free_blockText hk.keyword f.body.2)
  have hheader := (hfun.separated hk.keyword (s := " ") (by decide) hname).separated hk.keyword
    (s := ": ") (by decide) hresult
  have hword : utf8 "fun " = utf8 "fun" ++ utf8 " " := by decide
  simpa [text, header, hword] using hheader

/-- A function declares no property. -/
lemma inert_header : Inert (f.header ++ [ascii '\x7b']) := by
  have hword : utf8 "fun " = utf8 "fun" ++ [ascii ' '] := by decide
  obtain ⟨r, hr⟩ : ∃ r, f.header ++ [ascii '\x7b'] = utf8 "fun" ++ ascii ' ' :: r :=
    ⟨f.name.1 ++ paramsText f.params ++ ": " ++ declaredType f.result f.nullable ++ " " ++
      [ascii '\x7b'], by simp [header, hword]⟩
  have hstart : ∀ t : Text, (f.header ++ [ascii '\x7b'] ++ t).head?.any isInk := by
    intro t
    rw [hr, List.append_assoc]
    exact head?_append_any (by decide) _
  have hforeign : ∀ {s : Text} (t : Text) (ss : List Text),
      trim s = f.header ++ [ascii '\x7b'] ++ t → isSolid (f.header ++ [ascii '\x7b'] ++ t) →
      propertiesFrom [] (s :: ss) = propertiesFrom [] ss := by
    intro s t ss htrim hsolid
    have hident : identAt (utf8 "fun" ++ ascii ' ' :: (r ++ t)) = utf8 "fun" :=
      identAt_append (by decide) (by simp; decide)
    rw [hr, List.append_assoc, List.cons_append] at htrim hsolid
    exact propertiesFrom_foreign htrim hsolid (by decide) (by decide) (hident ▸ by decide) ss
  intro n ss
  have hopened : isSolid (f.header ++ [ascii '\x7b']) := by
    have h := hstart []
    rw [List.append_nil] at h
    exact isSolid_iff.mpr ⟨h, getLast?_append_any _ (by decide)⟩
  refine ⟨?_, ?_⟩
  · refine hforeign [] ss ?_ (by simpa using hopened)
    rw [trim_append_spaces (isTrimmed_of_isSolid hopened).2, List.append_nil]
  · have hclosed : isSolid (f.header ++ [ascii '\x7b'] ++
        (List.replicate n (ascii ' ') ++ [ascii '\x7d'])) :=
      isSolid_iff.mpr ⟨hstart _, getLast?_append_any _ (getLast?_append_any _ (by decide))⟩
    refine hforeign (List.replicate n (ascii ' ') ++ [ascii '\x7d']) ss ?_ hclosed
    rw [List.append_assoc, trim_eq_self (isTrimmed_of_isSolid hclosed).2]

end FunctionSyntax

/-! ### Members -/

/-- A member of a class. -/
inductive Member (L : Lexicon) where
  /-- A property with its annotations; the flags say where a line ends. -/
  | property (marks : List (MarkSyntax L × Bool)) (p : PropertySyntax L)
  /-- A function. -/
  | function (f : FunctionSyntax L)

namespace Member

/-- The member as it is written. -/
def text : Member L → Text
  | property marks p => leadTexts marks ++ p.text
  | function f => f.text

/-- The fields that the member declares. -/
def fields : Member L → List Field
  | property marks p => [p.field (marks.map Prod.fst)]
  | function _ => []

/-- The end of the type is clear if the member is a property. -/
def IsClear : Member L → Prop
  | property _ p => p.typed.IsClear
  | function _ => True

end Member

/-- Annotations are nested wherever line ends do not matter. -/
lemma nested_leadTexts {brackets : Brackets} {sep : UInt8 → Bool} (h : Suits brackets sep)
    (hline : Nested brackets sep (utf8 "\n")) (marks : List (MarkSyntax L × Bool)) :
    Nested brackets sep (leadTexts marks) := by
  have hspace : Coded (utf8 " ") := .of_all (by decide)
  induction marks with
  | nil => exact .nil
  | cons m marks ih =>
    obtain ⟨a, ends⟩ := m
    have ha := a.coded _ _ h
    cases ends with
    | false => exact (ha.append (hspace _ _ h)).append ih
    | true => exact (ha.append hline).append ih

/-- Annotations hold no header of a class. -/
lemma free_leadTexts (hk : L.Avoids "class") (marks : List (MarkSyntax L × Bool)) {t : Text}
    (ht : Free "class" t) : Free "class" (leadTexts marks ++ t) := by
  induction marks with
  | nil => exact ht
  | cons m marks ih =>
    obtain ⟨a, ends⟩ := m
    have hsep : isSep (if ends then utf8 "\n" else utf8 " ") := by
      cases ends with
      | false => decide
      | true => decide
    have h := (a.free hk).separated hk.keyword hsep ih
    rw [leadTexts, List.flatMap_cons, List.append_assoc]
    exact h

namespace Member

variable (m : Member L)

/-- The braces of a member match. -/
lemma balanced_text : Balanced .braces m.text := by
  cases m with
  | property marks p =>
    exact (nested_leadTexts suits_braces (.of_plain (by decide)) marks).append
      (p.coded _ _ suits_braces)
  | function f =>
    exact (f.coded_header _ _ suits_braces).append (.enclose (by decide) f.body.2.1)

/-- A member holds no header of a class. -/
lemma free_text (hk : L.Avoids "class") : Free "class" m.text := by
  cases m with
  | property marks p => exact free_leadTexts hk marks (p.free hk (by decide))
  | function f => exact f.free_text hk

/-- The properties of a printed member come before those of the lines that follow it. -/
lemma scan_text (h : m.IsClear) (t : Text) :
    scan [] (blankFrom {} (m.text ++ ascii '\n' :: t)) = m.fields ++ scan [] (blankFrom {} t) := by
  have hline : ∀ t : Text, blankFrom {} (ascii '\n' :: t) = ascii '\n' :: blankFrom {} t :=
    blankFrom_outside (s := [ascii '\n']) (.of_plain (by decide))
  cases m with
  | property marks p =>
    have hnested : Nested ⟨[], []⟩ isBrace (leadTexts marks ++ p.text) :=
      (nested_leadTexts suits_brace (.of_plain (by decide)) marks).append (p.coded _ _ suits_brace)
    have hscan := scan_property marks h [] [] (blankFrom {} t)
    rw [text, blankFrom_outside hnested, hline, List.append_assoc]
    exact hscan
  | function f =>
    have hnested := f.coded_header _ _ suits_brace
    have hopened : Nested .parens isLineEnd (f.header ++ [ascii '\x7b']) :=
      (f.coded_header _ _ suits_lineEnd).append (.of_plain (by decide))
    have hscan := scan_blanks f.inert_header hopened 0 f.body.1 (blankFrom {} t)
    rw [text, FunctionSyntax.text, List.append_assoc, blankFrom_outside hnested, blockText,
      List.cons_append, List.append_assoc, List.singleton_append, blankFrom_block f.body.2.1, hline]
    simpa [fields] using hscan

end Member

/-- The content of the braces of a class, with each member on a line of its own. -/
def bodyText (members : List (Member L)) : Text :=
  utf8 "\n" ++ members.flatMap fun m => m.text ++ utf8 "\n"

/-- The properties of a printed body are those that its members declare. -/
lemma bodyFields_bodyText {members : List (Member L)} (h : ∀ m ∈ members, m.IsClear) :
    bodyFields (bodyText members) = members.flatMap Member.fields := by
  have hmembers : scan [] (blankFrom {} (members.flatMap fun m => m.text ++ utf8 "\n")) =
      members.flatMap Member.fields := by
    induction members with
    | nil => rfl
    | cons m ms ih =>
      obtain ⟨hm, hms⟩ := List.forall_mem_cons.mp h
      rw [List.flatMap_cons, List.append_assoc, utf8_newline, List.singleton_append, m.scan_text hm,
        ← utf8_newline, ih hms, List.flatMap_cons]
  have hfirst : ∀ t : Text, scan [] (utf8 "\n" ++ t) = scan [] t := fun t =>
    (scan_line .nil [] t).trans (inert_nil 0 _).1
  rw [bodyFields_eq_scan, bodyText, blankFrom_outside (.of_plain (by decide)), hfirst, hmembers]

/-- The braces of a printed body match. -/
lemma balanced_bodyText (members : List (Member L)) : Balanced .braces (bodyText members) := by
  have hline : Balanced .braces (utf8 "\n") := .of_plain (by decide)
  refine hline.append ?_
  induction members with
  | nil => exact .nil
  | cons m ms ih => exact (m.balanced_text.append hline).append ih

/-- A printed body holds no header of a class. -/
lemma free_bodyText (hk : L.Avoids "class") (members : List (Member L)) :
    Free "class" (bodyText members) := by
  have h := Free.flatMap_sep hk.keyword (fun (m : Member L) (_ : m ∈ members) => m.free_text hk)
    (s := "\n") (by decide) .nil
  rw [List.append_nil] at h
  exact .sep_append hk.keyword (by decide) h

end DtoSchema.Declaration.Kotlin
