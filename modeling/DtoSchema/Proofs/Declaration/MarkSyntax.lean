import DtoSchema.Proofs.Declaration.Lexicon

/-!
# Printed annotations

An annotation has an optional target, a dotted name and an optional list of arguments; an argument
is a number, a name or a string, with or without a key.  `MarkSyntax` is the type of annotations
that are printed.  Reading a printed annotation gives its parts back and stops right behind it
(`MarkSyntax.read?_text`), so that a reader of several annotations finds exactly those that were
printed.
-/

namespace DtoSchema.Declaration

open Text Source

/-! ### Syntax -/

/-- The digits of a number, with any letters behind the first one. -/
def isNumeral (s : Text) : Bool := s.head?.any isDigit && s.all isWord

/-- The value of an argument. -/
inductive Value (L : Lexicon) where
  /-- A number, with or without a minus sign. -/
  | number (negative : Bool) (digits : {s : Text // isNumeral s})
  /-- A name. -/
  | name (name : DottedName L.isName)
  /-- A string literal with the given content. -/
  | string (content : {s : Text // L.isString s})

/-- An argument of an annotation. -/
structure Argument (L : Lexicon) where
  /-- The key of a named argument. -/
  key : Option L.Name
  /-- The value. -/
  value : Value L

/-- An annotation. -/
structure MarkSyntax (L : Lexicon) where
  /-- What the annotation applies to. -/
  target : Option L.Name
  /-- The name. -/
  name : DottedName L.isName
  /-- The arguments, if there are parentheses. -/
  arguments : Option (List (Argument L))

section Text

variable {L : Lexicon}

/-- The value as it is written. -/
def Value.text : Value L → Text
  | number negative digits => onlyIf negative "-" ++ digits.1
  | name n => n.text
  | string content => ascii '"' :: (content.1 ++ [ascii '"'])

/-- A name, if there is one, with a text behind it. -/
def prefixed (name : Option L.Name) (sep : Text) : Text := name.elim [] fun w => w.1 ++ sep

/-- The argument as it is written. -/
def Argument.text (a : Argument L) : Text := prefixed a.key " = " ++ a.value.text

/-- The arguments as they are written between the parentheses. -/
def Argument.texts (arguments : List (Argument L)) : Text := join ", " (arguments.map text)

namespace MarkSyntax

/-- What stands behind the name of an annotation. -/
def parenthesized (a : MarkSyntax L) : Text :=
  a.arguments.elim [] fun arguments => "(" ++ Argument.texts arguments ++ ")"

/-- The annotation as it is written. -/
def text (a : MarkSyntax L) : Text :=
  "@" ++ prefixed a.target ":" ++ a.name.text ++ a.parenthesized

/-- The annotation as it is to be read. -/
def mark (a : MarkSyntax L) : Mark where
  target := a.target.elim [] (·.1)
  name := a.name.text
  body := a.arguments.map Argument.texts
  text := a.text

/-- Annotations as they are written in front of a declaration, each with a space behind it. -/
def texts (as : List (MarkSyntax L)) : Text := as.flatMap fun a => a.text ++ " "

end MarkSyntax

end Text

/-! ### Annotations are coded and hold no keyword -/

section Coded

variable {L : Lexicon}

/-- A name is coded. -/
lemma coded_of_isName {w : Text} (h : L.isName w) : Coded w :=
  coded_of_isNamePart (all_isNamePart_of_isIdent (isIdent_of_isName h))

/-- A name with code behind it is coded. -/
lemma coded_prefixed (name : Option L.Name) {sep : Text} (hsep : sep.all isCodeByte) :
    Coded (prefixed name sep) := by
  cases name with
  | none => exact .nil
  | some w => exact (coded_of_isName w.2).append (.of_all hsep)

/-- A value is coded. -/
lemma Value.coded (v : Value L) : Coded v.text := by
  cases v with
  | number negative digits =>
    have hdigits := digits.2
    simp only [isNumeral, Bool.and_eq_true] at hdigits
    have hminus : Coded (onlyIf negative "-") := by
      cases negative with
      | false => exact .nil
      | true => exact .of_all (by decide)
    exact hminus.append (.of_all (all_mono (fun _ => isCodeByte_of_isWord) hdigits.2))
  | name n => exact coded_dottedName n
  | string content =>
    have hcontent := content.2
    simp only [Lexicon.isString, Bool.and_eq_true] at hcontent
    exact .quote (by decide) hcontent.1

/-- An argument is coded. -/
lemma Argument.coded (a : Argument L) : Coded a.text :=
  (coded_prefixed a.key (by decide)).append a.value.coded

/-- Arguments are a list. -/
lemma Argument.codedList (arguments : List (Argument L)) :
    CodedList (Argument.texts arguments) := by
  refine .join fun p hp => ?_
  obtain ⟨a, -, rfl⟩ := List.mem_map.mp hp
  exact a.coded

/-- An annotation is coded. -/
lemma MarkSyntax.coded (a : MarkSyntax L) : Coded a.text := by
  have htarget : Coded (prefixed a.target ":") := coded_prefixed a.target (by decide)
  have harguments : Coded a.parenthesized := by
    unfold parenthesized
    cases a.arguments with
    | none => exact .nil
    | some arguments =>
      have hgroup := Coded.surround (p := (ascii '(', ascii ')')) (by decide)
        (Argument.codedList arguments)
      simpa [utf8_openParen, utf8_closeParen] using hgroup
  have hat : Coded (utf8 "@") := .of_all (by decide)
  exact ((hat.append htarget).append (coded_dottedName a.name)).append harguments

/-- Printed annotations are coded. -/
lemma MarkSyntax.coded_texts (as : List (MarkSyntax L)) : Coded (MarkSyntax.texts as) := by
  induction as with
  | nil => exact .nil
  | cons a as ih => exact (a.coded.append (.of_all (by decide))).append ih

end Coded

section Free

variable {L : Lexicon} {k : Text}

/-- A name with a separator behind it holds no keyword. -/
lemma free_prefixed (hk : L.Avoids k) (name : Option L.Name) {sep t : Text} (hsep : isSep sep)
    (ht : Free k t) : Free k (prefixed name sep ++ t) := by
  cases name with
  | none => exact ht
  | some w => exact (free_of_isName hk.toReserves w.2).separated hk.keyword hsep ht

/-- A value holds no keyword. -/
lemma Value.free (hk : L.Avoids k) (v : Value L) : Free k v.text := by
  cases v with
  | number negative digits =>
    have hdigits := digits.2
    simp only [isNumeral, Bool.and_eq_true] at hdigits
    have hfree : Free k digits.1 := by
      refine .of_word hk.keyword hdigits.2 fun h => ?_
      have hnot := hk.not_digit
      rw [← h, hdigits.1] at hnot
      exact absurd hnot (by simp)
    cases negative with
    | false => exact hfree
    | true => exact .sep_append hk.keyword (by decide) hfree
  | name n => exact free_dottedName hk.toReserves n
  | string content => exact hk.literal content.1 content.2

/-- Arguments hold no keyword. -/
lemma Argument.free (hk : L.Avoids k) (arguments : List (Argument L)) :
    Free k (Argument.texts arguments) := by
  refine .join_sep hk.keyword (fun p hp => ?_) (by decide)
  obtain ⟨a, -, rfl⟩ := List.mem_map.mp hp
  exact free_prefixed hk a.key (by decide) (a.value.free hk)

/-- An annotation holds no keyword. -/
lemma MarkSyntax.free (hk : L.Avoids k) (a : MarkSyntax L) : Free k a.text := by
  have hname : Free k (a.name.text ++ a.parenthesized) := by
    unfold parenthesized
    cases a.arguments with
    | none => simpa using free_dottedName hk.toReserves a.name
    | some arguments =>
      have hclosed : Free k (Argument.texts arguments ++ ")") :=
        (Argument.free hk arguments).append_sep hk.keyword (by decide)
      have h := (free_dottedName hk.toReserves a.name).separated hk.keyword (s := "(") (by decide)
        hclosed
      simpa using h
  have h := Free.sep_append hk.keyword (s := "@") (by decide)
    (free_prefixed hk a.target (show isSep (utf8 ":") by decide) hname)
  simpa [text] using h

/-- Printed annotations hold no keyword. -/
lemma MarkSyntax.free_texts (hk : L.Avoids k) (as : List (MarkSyntax L)) {t : Text}
    (ht : Free k t) : Free k (MarkSyntax.texts as ++ t) :=
  .flatMap_sep hk.keyword (fun a _ => a.free hk) (by decide) ht

end Free

/-! ### The bytes of annotations -/

section Bytes

variable {L : Lexicon} {p : UInt8 → Bool}

/-- The bytes of the class `p` suffice to write the arguments of annotations. -/
structure Lexicon.Spells (L : Lexicon) (p : UInt8 → Bool) : Prop where
  /-- They suffice for names. -/
  part : ∀ b, isNamePart b = true → p b = true
  /-- They suffice for what stands between names. -/
  signs : (utf8 ",=-\" ").all p
  /-- They suffice for the contents of string literals. -/
  literal : ∀ s, L.isString s → s.all p

/-- The bytes of names are all there. -/
lemma Lexicon.Spells.all_of_isNamePart (h : L.Spells p) {s : Text} (hs : s.all isNamePart) :
    s.all p :=
  all_mono h.part hs

/-- The bytes of words are all there. -/
lemma Lexicon.Spells.all_of_isWord (h : L.Spells p) {s : Text} (hs : s.all isWord) : s.all p :=
  h.all_of_isNamePart (all_mono (fun _ => isNamePart_of_isWord) hs)

/-- The signs between names are all there. -/
lemma Lexicon.Spells.all_signs (h : L.Spells p) {s : Text} (hs : s.all (· ∈ utf8 ",=-\" ")) :
    s.all p :=
  all_mono (fun b hb => List.all_eq_true.mp h.signs b (by simpa using hb)) hs

/-- The bytes of a name with a text behind it. -/
lemma bytes_prefixed (h : L.Spells p) (name : Option L.Name) {sep : Text} (hsep : sep.all p) :
    (prefixed name sep).all p := by
  cases name with
  | none => rfl
  | some w =>
    simp only [prefixed, Option.elim_some, List.all_append, hsep, Bool.and_true]
    exact h.all_of_isWord (all_isWord_of_isName w.2)

/-- The bytes of a value. -/
lemma Value.bytes (h : L.Spells p) (v : Value L) : v.text.all p := by
  cases v with
  | number negative digits =>
    have hdigits := digits.2
    simp only [isNumeral, Bool.and_eq_true] at hdigits
    have hminus : (onlyIf negative "-").all p := by
      cases negative with
      | false => rfl
      | true => exact h.all_signs (by decide)
    rw [text, List.all_append, hminus, h.all_of_isWord hdigits.2]
    rfl
  | name n => exact h.all_of_isNamePart (n.text_all fun _ => isIdent_of_isName)
  | string content =>
    have hquote : p (ascii '"') := List.all_eq_true.mp h.signs _ (by decide)
    simp [text, h.literal content.1 content.2, hquote]

/-- The bytes of arguments. -/
lemma Argument.bytes (h : L.Spells p) (arguments : List (Argument L)) :
    (Argument.texts arguments).all p := by
  refine all_join (h.all_signs (by decide)) fun q hq => ?_
  obtain ⟨a, -, rfl⟩ := List.mem_map.mp hq
  rw [Argument.text, List.all_append, bytes_prefixed h a.key (h.all_signs (by decide)),
    a.value.bytes h]
  rfl

/-- The bytes of annotations. -/
lemma MarkSyntax.bytes (h : L.Spells p) (hmark : (utf8 "@:() ").all p) (as : List (MarkSyntax L)) :
    (MarkSyntax.texts as).all p := by
  have hmark := List.all_eq_true.mp hmark
  have hsign : ∀ {s : Text}, s.all (· ∈ utf8 "@:() ") → s.all p := fun hs =>
    List.all_eq_true.mpr fun b hb => hmark b (by simpa using List.all_eq_true.mp hs b hb)
  refine List.all_eq_true.mpr fun b hb => ?_
  obtain ⟨a, -, hb⟩ := List.mem_flatMap.mp hb
  have hname := h.all_of_isNamePart (a.name.text_all fun _ => isIdent_of_isName)
  have hparenthesized : a.parenthesized.all p := by
    unfold parenthesized
    cases a.arguments with
    | none => rfl
    | some arguments =>
      simp only [Option.elim_some, List.all_append, Argument.bytes h arguments, Bool.and_eq_true,
        and_true]
      exact ⟨hsign (by decide), hsign (by decide)⟩
  have htarget : (prefixed a.target ":").all p := bytes_prefixed h a.target (hsign (by decide))
  have hall : (a.text ++ utf8 " ").all p := by
    simp only [MarkSyntax.text, List.all_append, hname, hparenthesized, htarget, Bool.and_eq_true,
      and_true]
    exact ⟨hsign (by decide), hsign (by decide)⟩
  exact List.all_eq_true.mp hall b hb

end Bytes

/-! ### Reading -/

/-- The name at the start of a text goes on over bytes of identifiers. -/
lemma nameSpan_run {w : Text} (hw : w.all isIdentPart) (t : Text) :
    Mark.nameSpan (w ++ t) = (w ++ (Mark.nameSpan t).1, (Mark.nameSpan t).2) := by
  induction w with
  | nil => rfl
  | cons b w ih =>
    simp only [List.all_cons, Bool.and_eq_true] at hw
    simp [Mark.nameSpan, hw.1, ih hw.2, consFirst]

/-- The name at the start of a text goes on over a dot in front of an identifier. -/
lemma nameSpan_dot {s : Text} (hs : s.head?.any isIdentStart) :
    Mark.nameSpan (ascii '.' :: s) = consFirst (ascii '.') (Mark.nameSpan s) := by
  simp [Mark.nameSpan, hs]

/-- There is no name where none starts. -/
lemma nameSpan_stop {t : Text} (ht : t.head?.any isNamePart = false) :
    Mark.nameSpan t = ([], t) := by
  cases t with
  | nil => rfl
  | cons b t =>
    simp only [List.head?_cons, Option.any_some, isNamePart, Bool.or_eq_false_iff] at ht
    simp [Mark.nameSpan, ht.1, ht.2]

/-- A dotted name is read as a whole. -/
lemma nameSpan_text {ok : Text → Bool} (hok : ∀ w, ok w = true → isIdent w = true)
    (n : DottedName ok) {t : Text} (ht : t.head?.any isNamePart = false) :
    Mark.nameSpan (n.text ++ t) = (n.text, t) := by
  obtain ⟨qualifiers, last⟩ := n
  induction qualifiers with
  | nil =>
    have hlast := all_isIdentPart_of_isIdent (hok last.1 last.2)
    simp [DottedName.text, DottedName.qualification, nameSpan_run hlast, nameSpan_stop ht]
  | cons w ws ih =>
    have hw := all_isIdentPart_of_isIdent (hok w.1 w.2)
    have hhead : ((DottedName.mk ws last).text ++ t).head?.any isIdentStart := by
      have h := (DottedName.mk ws last).text_head? hok
      cases hcase : (DottedName.mk ws last).text with
      | nil => simp [hcase] at h
      | cons b s => simpa [hcase] using h
    rw [DottedName.text_cons, List.append_assoc, nameSpan_run hw, List.cons_append,
      nameSpan_dot hhead, ih]
    simp [consFirst]

/-- An annotation without arguments ends here: a gap or nothing follows, and no parenthesis behind
the gap. -/
def endsMark (t : Text) : Bool := t.head?.all isGap && (skipGaps t).head? != some (ascii '(')

/-- A gap goes on neither with a name nor with a colon. -/
lemma not_name_of_isGap {b : UInt8} (h : isGap b) : isNamePart b = false ∧ b ≠ ascii ':' := by
  refine ⟨Bool.eq_false_iff.mpr fun hb => ?_, ne_of_class h (by decide)⟩
  simp [isGap_of_isInk (isInk_of_isNamePart hb)] at h

/-- No bytes of a name follow an annotation that ends. -/
lemma head?_of_endsMark {t : Text} (ht : endsMark t) :
    t.head?.any isNamePart = false ∧ t.head? ≠ some (ascii ':') := by
  cases t with
  | nil => simp
  | cons b t =>
    simp only [endsMark, List.head?_cons, Option.all_some, Bool.and_eq_true] at ht
    have hb := not_name_of_isGap ht.1
    simp [hb]

namespace MarkSyntax

variable {L : Lexicon}

/-- What follows the name of an annotation goes on neither with the name nor with a colon. -/
lemma head?_parenthesized (a : MarkSyntax L) {t : Text} (ht : a.arguments = none → endsMark t) :
    (a.parenthesized ++ t).head?.any isNamePart = false ∧
      (a.parenthesized ++ t).head? ≠ some (ascii ':') := by
  unfold parenthesized
  cases h : a.arguments with
  | none => simpa using head?_of_endsMark (ht h)
  | some arguments =>
    have hpart : isNamePart (ascii '(') = false := by decide
    have hne : ascii '(' ≠ ascii ':' := by decide
    simp [utf8_openParen, hpart, hne]

/-- The parentheses behind the name of an annotation are read as its arguments. -/
lemma readBalanced?_parenthesized (a : MarkSyntax L) {t : Text}
    (ht : a.arguments = none → endsMark t) :
    (readBalanced? (ascii '(') (ascii ')') (skipGaps (a.parenthesized ++ t))).map (·.1) =
      a.arguments.map Argument.texts := by
  unfold parenthesized
  cases h : a.arguments with
  | none =>
    have hend := ht h
    simp only [endsMark, Bool.and_eq_true, bne_iff_ne] at hend
    cases hcase : skipGaps t with
    | nil => simp [hcase, readBalanced?]
    | cons b s =>
      have hb : b ≠ ascii '(' := by simpa [hcase] using hend.2
      simp [hcase, readBalanced?, hb]
  | some arguments =>
    have hgap : isGap (ascii '(') = false := by decide
    have hnested : Balanced (.single (ascii '(') (ascii ')')) (Argument.texts arguments) :=
      (Argument.codedList arguments _ _ suits_semicolon).balanced
    have hread := readBalanced?_nested (by decide) hnested t
    simp [utf8_openParen, utf8_closeParen, skipGaps, hgap, hread]

/-- The annotation up to its arguments. -/
def heading (a : MarkSyntax L) : Text := "@" ++ prefixed a.target ":" ++ a.name.text

/-- The name of an annotation is not empty. -/
lemma name_ne_nil (a : MarkSyntax L) : a.name.text ≠ [] := by
  intro h
  have hhead := a.name.text_head? fun _ => isIdent_of_isName
  simp [h] at hhead

/-- Reading stops behind the name and gives target and name. -/
lemma read?_heading (a : MarkSyntax L) {rest : Text} (hpart : rest.head?.any isNamePart = false)
    (hcolon : rest.head? ≠ some (ascii ':')) :
    Mark.read? (a.heading ++ rest) =
      match readBalanced? (ascii '(') (ascii ')') (skipGaps rest) with
      | some (body, _) => some ⟨a.mark.target, a.mark.name, some body,
          a.heading ++ rest.takeWhile isGap ++ ascii '(' :: body ++ ")"⟩
      | none => some ⟨a.mark.target, a.mark.name, none, a.heading⟩ := by
  have hname := nameSpan_text (fun _ => isIdent_of_isName) a.name hpart
  have htext : a.heading ++ rest =
      ascii '@' :: (prefixed a.target ":" ++ (a.name.text ++ rest)) := by
    simp [heading, utf8_at]
  have htake : (ascii '@' :: (prefixed a.target ":" ++ (a.name.text ++ rest))).take
      ((prefixed a.target ":" ++ (a.name.text ++ rest)).length + 1 - rest.length) = a.heading := by
    have hlen := congrArg List.length htext
    simp only [List.length_append, List.length_cons] at hlen ⊢
    rw [← htext, List.take_left' (by omega)]
  rw [htext]
  simp only [Mark.read?, ne_eq, not_true_eq_false, if_false]
  cases htarget : a.target with
  | none =>
    have hafter : Mark.afterColon? rest = none := by
      cases rest with
      | nil => rfl
      | cons b rest =>
        have hb : b ≠ ascii ':' := by simpa using hcolon
        simp [Mark.afterColon?, hb]
    simp only [htarget, prefixed, Option.elim_none, List.nil_append] at htake
    cases hread : readBalanced? (ascii '(') (ascii ')') (skipGaps rest) <;>
      simp only [prefixed, Option.elim_none, List.nil_append, hname, List.isEmpty_iff,
        a.name_ne_nil, if_false, hafter, mark, htarget, htake, hread]
  | some w =>
    have hw := all_isIdentPart_of_isIdent (isIdent_of_isName w.2)
    have hwne : w.1 ≠ [] := by
      intro h
      simpa [h, isIdent] using isIdent_of_isName w.2
    have hstop : Mark.nameSpan (ascii ':' :: (a.name.text ++ rest)) =
        ([], ascii ':' :: (a.name.text ++ rest)) := nameSpan_stop (by simp; decide)
    have hhead : (a.name.text ++ rest).head?.any isIdentStart :=
      head?_append_any (a.name.text_head? fun _ => isIdent_of_isName) rest
    have hafter : Mark.afterColon? (ascii ':' :: (a.name.text ++ rest)) =
        some (a.name.text, rest) := by
      simp only [Mark.afterColon?, hhead, and_self, if_true, hname]
    simp only [htarget, prefixed, Option.elim_some, utf8_colon, List.append_assoc,
      List.singleton_append] at htake
    cases hread : readBalanced? (ascii '(') (ascii ')') (skipGaps rest) <;>
      simp only [prefixed, Option.elim_some, utf8_colon, List.append_assoc, List.singleton_append,
        nameSpan_run hw, hstop, List.append_nil, List.isEmpty_iff, hwne, if_false, hafter, mark,
        htarget, htake, hread]

/-- A printed annotation is read as a whole. -/
lemma read?_text (a : MarkSyntax L) {t : Text} (ht : a.arguments = none → endsMark t) :
    Mark.read? (a.text ++ t) = some a.mark := by
  obtain ⟨hpart, hcolon⟩ := a.head?_parenthesized ht
  have htext : a.text ++ t = a.heading ++ (a.parenthesized ++ t) := by simp [text, heading]
  have hread := a.readBalanced?_parenthesized ht
  rw [htext, a.read?_heading hpart hcolon]
  cases h : a.arguments with
  | none =>
    have hnone :
        readBalanced? (ascii '(') (ascii ')') (skipGaps (a.parenthesized ++ t)) = none := by
      simpa [h] using hread
    rw [hnone]
    simp [mark, h, text, heading, parenthesized]
  | some arguments =>
    simp only [h, Option.map_some, Option.map_eq_some_iff] at hread
    obtain ⟨⟨body, rest⟩, hbody, rfl⟩ := hread
    have hgap : isGap (ascii '(') = false := by decide
    rw [hbody]
    simp [mark, h, text, heading, parenthesized, utf8_openParen, hgap]

/-- A printed annotation starts with its sign. -/
lemma text_eq_cons (a : MarkSyntax L) : ∃ s, a.text = ascii '@' :: s := by
  exact ⟨prefixed a.target ":" ++ a.name.text ++ a.parenthesized, by simp [text, utf8_at]⟩

end MarkSyntax

/-! ### Readers of several annotations -/

/-- The bytes that start an annotation or a word. -/
def isMarkStart (b : UInt8) : Bool := b == ascii '@' || isIdentStart b

/-- A byte that starts an annotation or a word is visible, and it is no parenthesis. -/
lemma of_isMarkStart {b : UInt8} (h : isMarkStart b) :
    isInk b ∧ isGap b = false ∧ b ≠ ascii '(' := by
  have hink : isInk b := by
    simp only [isMarkStart, Bool.or_eq_true, beq_iff_eq] at h
    rcases h with rfl | h
    · decide
    · exact isInk_of_isIdentStart h
  exact ⟨hink, isGap_of_isInk hink, ne_of_class h (by decide)⟩

/-- An annotation ends at a gap with another annotation or a word behind it. -/
lemma endsMark_gap {g : UInt8} (hg : isGap g) {t : Text} (ht : t.head?.all isMarkStart) :
    endsMark (g :: t) := by
  cases t with
  | nil => simp [endsMark, hg, skipGaps]
  | cons b t =>
    obtain ⟨-, hgap, hne⟩ := of_isMarkStart (b := b) (by simpa using ht)
    simp [endsMark, hg, skipGaps, hgap, hne]

/-- Another byte than the sign of annotations starts none. -/
lemma read?_eq_none {b : UInt8} (hb : b ≠ ascii '@') (s : Text) : Mark.read? (b :: s) = none := by
  simp [Mark.read?, hb]

/-- Bytes of the last annotation are passed. -/
lemma readAllFrom_pass (a t : Text) :
    Mark.readAllFrom a.length (a ++ t) = Mark.readAllFrom 0 t := by
  induction a with
  | nil => rfl
  | cons b a ih => simpa [Mark.readAllFrom] using ih

/-- Bytes of the last annotation are passed. -/
lemma afterLeadingFrom_pass (a t : Text) :
    Mark.afterLeadingFrom a.length (a ++ t) = Mark.afterLeadingFrom 0 t := by
  induction a with
  | nil => rfl
  | cons b a ih => simpa [Mark.afterLeadingFrom] using ih

/-- Bytes of the last annotation or modifier are passed. -/
lemma leadingMarksFrom?_pass (blanks : List Text) (isModifier : Text → Bool) (a t : Text) :
    leadingMarksFrom? blanks isModifier a.length (a ++ t) =
      leadingMarksFrom? blanks isModifier 0 t := by
  induction a with
  | nil => rfl
  | cons b a ih => simpa [leadingMarksFrom?] using ih

namespace MarkSyntax

variable {L : Lexicon}

/-- Printed annotations start with the sign of one, or with what follows them. -/
lemma head?_texts (as : List (MarkSyntax L)) {t : Text} (ht : t.head?.all isMarkStart) :
    (texts as ++ t).head?.all isMarkStart := by
  cases as with
  | nil => exact ht
  | cons a as =>
    obtain ⟨s, hs⟩ := a.text_eq_cons
    simp [texts, hs, isMarkStart]

/-- The annotations in a printed list are those that were printed. -/
lemma readAll_texts (as : List (MarkSyntax L)) : Mark.readAll (texts as) = as.map mark := by
  unfold Mark.readAll
  induction as with
  | nil => rfl
  | cons a as ih =>
    obtain ⟨s, hs⟩ := a.text_eq_cons
    have hhead : (texts as).head?.all isMarkStart := by
      simpa using head?_texts as (t := []) rfl
    have hread := a.read?_text (t := ascii ' ' :: texts as)
      fun _ => endsMark_gap (by decide) hhead
    have hcons : texts (a :: as) = ascii '@' :: (s ++ ascii ' ' :: texts as) := by
      simp [texts, hs, utf8_space]
    have hlen : a.mark.text.length - 1 = s.length := by simp [mark, hs]
    rw [hs, List.cons_append] at hread
    rw [hcons, Mark.readAllFrom, hread]
    simp only [hlen, readAllFrom_pass]
    rw [Mark.readAllFrom, read?_eq_none (by decide), List.map_cons]
    simp only [ih]

/-- What follows an annotation and a space is looked at next. -/
lemma afterLeading_text (a : MarkSyntax L) {g : UInt8} (hg : isGap g) {t : Text}
    (ht : t.head?.all isMarkStart) :
    Mark.afterLeading (a.text ++ g :: t) = Mark.afterLeading t := by
  obtain ⟨s, hs⟩ := a.text_eq_cons
  have hread := a.read?_text (t := g :: t) fun _ => endsMark_gap hg ht
  have hlen : a.mark.text.length - 1 = s.length := by simp [mark, hs]
  have hgap : isGap (ascii '@') = false := by decide
  rw [hs, List.cons_append] at hread ⊢
  simp only [Mark.afterLeading, Mark.afterLeadingFrom, hgap, hread, hlen]
  rw [if_neg (by simp), afterLeadingFrom_pass, Mark.afterLeadingFrom, if_pos hg]

/-- Nothing follows an annotation at the end of a text. -/
lemma afterLeading_text_self (a : MarkSyntax L) : Mark.afterLeading a.text = [] := by
  obtain ⟨s, hs⟩ := a.text_eq_cons
  have hread := a.read?_text (t := []) fun _ => rfl
  have hlen : a.mark.text.length - 1 = s.length := by simp [mark, hs]
  have hgap : isGap (ascii '@') = false := by decide
  have hpass := afterLeadingFrom_pass s []
  rw [List.append_nil, hs] at hread
  rw [List.append_nil] at hpass
  simp only [hs, Mark.afterLeading, Mark.afterLeadingFrom, hgap, hread, hlen]
  rw [if_neg (by simp), hpass, Mark.afterLeadingFrom]

/-- An annotation at the start of a declaration is recorded. -/
lemma leadingMarks?_text (isModifier : Text → Bool) (a : MarkSyntax L) {t : Text}
    (ht : t.head?.all isMarkStart) :
    leadingMarks? spaces isModifier (a.text ++ ascii ' ' :: t) =
      (leadingMarks? spaces isModifier t).map fun r => (a.text ++ " " ++ r.1, r.2) := by
  obtain ⟨s, hs⟩ := a.text_eq_cons
  have hread := a.read?_text (t := ascii ' ' :: t) fun _ => endsMark_gap (by decide) ht
  have hlen : a.mark.text.length - 1 = s.length := by simp [mark, hs]
  have hwidth := leadingWidth_ink areBlank_spaces (show isInk (ascii '@') by decide)
    (s ++ ascii ' ' :: t)
  rw [hs, List.cons_append] at hread ⊢
  simp only [leadingMarks?, leadingMarksFrom?, hwidth, hread, Option.bind_some, if_true, hlen,
    leadingMarksFrom?_pass, leadingWidth_spaces_blank]
  simp [mark, hs]

end MarkSyntax

/-! ### Modifiers -/

/-- The bytes that start identifiers start annotations or words. -/
lemma isMarkStart_of_isIdentStart {b : UInt8} (h : isIdentStart b) : isMarkStart b := by
  simp [isMarkStart, h]

/-- A space at the start of a declaration is passed. -/
lemma leadingMarks?_space (isModifier : Text → Bool) (t : Text) :
    leadingMarks? spaces isModifier (ascii ' ' :: t) = leadingMarks? spaces isModifier t := by
  simp only [leadingMarks?, leadingMarksFrom?, leadingWidth_spaces_blank]

/-- A modifier at the start of a declaration is passed. -/
lemma leadingMarks?_modifier {isModifier : Text → Bool} {w : Text} (hw : isIdent w)
    (hmodifier : isModifier w) (t : Text) :
    leadingMarks? spaces isModifier (w ++ ascii ' ' :: t) = leadingMarks? spaces isModifier t := by
  have hident : identAt (w ++ ascii ' ' :: t) = w := identAt_append hw (by simp; decide)
  cases w with
  | nil => simp [isIdent] at hw
  | cons b w =>
    simp only [isIdent, Bool.and_eq_true] at hw
    have hink := isInk_of_isIdentStart hw.1
    have hne : b ≠ ascii '@' := ne_of_class hw.1 (by decide)
    rw [List.cons_append] at hident ⊢
    simp only [leadingMarks?, leadingMarksFrom?, leadingWidth_ink areBlank_spaces hink, hident,
      hmodifier, hne, if_true, if_false, List.length_cons, Nat.add_one_sub_one,
      leadingMarksFrom?_pass, leadingWidth_spaces_blank]

/-- The annotations and modifiers end before a text that starts with neither. -/
lemma leadingMarks?_stop {blanks : List Text} (hblanks : areBlank blanks)
    {isModifier : Text → Bool} {b : UInt8} (hb : isInk b) (hne : b ≠ ascii '@') {s : Text}
    (hs : isModifier (identAt (b :: s)) = false) :
    leadingMarks? blanks isModifier (b :: s) = some ([], b :: s) := by
  simp [leadingMarks?, leadingMarksFrom?, leadingWidth_ink hblanks hb, hne, hs]

/-- All members are words that start like identifiers. -/
def areWords (words : List Text) : Bool := words.all fun w => isIdent w && w.all isWord

/-- Modifiers as they are written, each with a space behind it. -/
def modifierTexts {words : List Text} (modifiers : List {w : Text // w ∈ words}) : Text :=
  modifiers.flatMap fun w => w.1 ++ " "

section Modifiers

variable {words : List Text} (hwords : areWords words)

include hwords

/-- A modifier is an identifier of word bytes. -/
lemma isIdent_of_areWords (w : {w : Text // w ∈ words}) : isIdent w.1 ∧ w.1.all isWord := by
  have h := List.all_eq_true.mp hwords w.1 w.2
  simpa only [Bool.and_eq_true] using h

/-- Modifiers are words and spaces. -/
lemma isWord_of_mem_modifierTexts {modifiers : List {w : Text // w ∈ words}} {b : UInt8}
    (hb : b ∈ modifierTexts modifiers) : isWord b ∨ b = ascii ' ' := by
  obtain ⟨w, -, hb⟩ := List.mem_flatMap.mp hb
  rcases List.mem_append.mp hb with hb | hb
  · exact .inl (List.all_eq_true.mp (isIdent_of_areWords hwords w).2 b hb)
  · exact .inr (by simpa [utf8_space] using hb)

/-- Modifiers are coded. -/
lemma coded_modifierTexts (modifiers : List {w : Text // w ∈ words}) :
    Coded (modifierTexts modifiers) := by
  refine .of_all (List.all_eq_true.mpr fun b hb => ?_)
  rcases isWord_of_mem_modifierTexts hwords hb with hb | rfl
  · exact isCodeByte_of_isWord hb
  · decide

/-- Modifiers hold no keyword that is none of them. -/
lemma free_modifierTexts {k t : Text} (hk : isKeyword k) (hmem : k ∉ words)
    (modifiers : List {w : Text // w ∈ words}) (ht : Free k t) :
    Free k (modifierTexts modifiers ++ t) := by
  refine .flatMap_sep hk (fun w _ => ?_) (by decide) ht
  exact .of_word hk (isIdent_of_areWords hwords w).2 fun h => hmem (h ▸ w.2)

/-- A declaration goes on with a word behind its annotations. -/
lemma head?_modifierTexts (modifiers : List {w : Text // w ∈ words}) {t : Text}
    (ht : t.head?.any isIdentStart) :
    (modifierTexts modifiers ++ t).head?.any isIdentStart := by
  cases modifiers with
  | nil => exact ht
  | cons w ws =>
    have hw := head?_isIdentStart_of_isIdent (isIdent_of_areWords hwords w).1
    cases hcase : w.1 with
    | nil => simp [hcase] at hw
    | cons b s => simpa [modifierTexts, hcase] using hw

/-- The annotations and modifiers of a printed declaration are separated from the rest. -/
lemma leadingMarks?_declaration {L : Lexicon} (as : List (MarkSyntax L))
    (modifiers : List {w : Text // w ∈ words}) {t : Text} (ht : t.head?.any isIdentStart)
    (hstop : identAt t ∉ words) :
    leadingMarks? spaces (· ∈ words) (MarkSyntax.texts as ++ (modifierTexts modifiers ++ t)) =
      some (MarkSyntax.texts as, t) := by
  have hmodifiers : leadingMarks? spaces (· ∈ words) (modifierTexts modifiers ++ t) =
      some ([], t) := by
    induction modifiers with
    | nil =>
      cases t with
      | nil => simp at ht
      | cons b t =>
        have hb : isIdentStart b := by simpa using ht
        exact leadingMarks?_stop areBlank_spaces (isInk_of_isIdentStart hb)
          (ne_of_class hb (by decide)) (by simpa using hstop)
    | cons w ws ih =>
      have hcons : modifierTexts (w :: ws) ++ t = w.1 ++ ascii ' ' :: (modifierTexts ws ++ t) := by
        simp [modifierTexts, utf8_space]
      rw [hcons, leadingMarks?_modifier (isIdent_of_areWords hwords w).1 (by simp [w.2]), ih]
  have hhead : (modifierTexts modifiers ++ t).head?.all isMarkStart := by
    have h := head?_modifierTexts hwords modifiers ht
    cases hcase : modifierTexts modifiers ++ t with
    | nil => rfl
    | cons b s =>
      rw [hcase] at h
      simpa using isMarkStart_of_isIdentStart (b := b) (by simpa using h)
  induction as with
  | nil => exact hmodifiers
  | cons a as ih =>
    have hcons : MarkSyntax.texts (a :: as) ++ (modifierTexts modifiers ++ t) =
        a.text ++ ascii ' ' :: (MarkSyntax.texts as ++ (modifierTexts modifiers ++ t)) := by
      simp [MarkSyntax.texts, utf8_space]
    rw [hcons, a.leadingMarks?_text _ (MarkSyntax.head?_texts as hhead), ih]
    simp [MarkSyntax.texts]

end Modifiers

end DtoSchema.Declaration
