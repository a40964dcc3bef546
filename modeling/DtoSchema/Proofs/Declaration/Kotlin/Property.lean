import DtoSchema.Declaration.Kotlin
import DtoSchema.Proofs.Declaration.MarkSyntax

/-!
# Printed properties of the Kotlin dialect

A parameter is a name with its type, which may be marked as nullable and may have a default value;
a property has modifiers and a keyword in front of that.  A printed property is read back with the
annotations in front of it (`PropertySyntax.property?_text`), and a printed list of parameters gives
the properties among them (`parameterFields_join`).

A declared type ends before the word `by`.  So it is only read back if it is not that word itself, or
if nothing follows it.
-/

namespace DtoSchema.Declaration.Kotlin

open Text Source

/-! ### The end of a declared type -/

/-- A delegate needs the keyword `by`. -/
lemma delegateAt_eq_false {prev : Option UInt8} {s : Text} (h : Skips "by" prev s []) :
    delegateAt s = false := by
  by_contra hdelegate
  simp only [delegateAt, Bool.not_eq_false, Bool.and_eq_true] at hdelegate
  obtain ⟨hgap, hby⟩ := hdelegate
  cases hafter : afterPrefix? "by" (skipGaps s) with
  | none => simp [hafter] at hby
  | some r =>
    have hrest := afterPrefix?_eq_some_iff.mp hafter
    have hsplit : s = s.takeWhile isGap ++ skipGaps s := List.takeWhile_append_dropWhile.symm
    rw [hsplit, skips_append] at h
    -- the keyword stands behind the gaps, the last of which is no word byte
    have hlast : ((s.takeWhile isGap).getLast?.or prev).any isWord = false := by
      cases s with
      | nil => simp at hgap
      | cons b s =>
        have hb : isGap b := by simpa using hgap
        have hne : (b :: s).takeWhile isGap ≠ [] := by simp [hb]
        rw [List.getLast?_eq_some_getLast hne]
        exact isWord_of_isGap (List.mem_takeWhile_imp (List.getLast_mem hne))
    have hplace : keywordAt "by" ((s.takeWhile isGap).getLast?.or prev) (skipGaps s) := by
      rw [keywordAt_iff]
      exact ⟨hlast, r, hrest, by simpa [hafter] using hby⟩
    have hskip := h.2
    have hcons : skipGaps s = ascii 'b' :: (ascii 'y' :: r) := hrest
    rw [hcons, Skips, List.append_nil, ← hcons, hplace] at hskip
    exact absurd hskip.1 (by simp)

/-- An accessor needs a parenthesis. -/
lemma accessorAt_eq_false {s : Text} (h : ascii '(' ∉ s) (name : Text) (prev : Option UInt8) :
    accessorAt name prev s = false := by
  by_contra haccessor
  simp only [accessorAt, Bool.not_eq_false, Bool.and_eq_true] at haccessor
  cases hafter : afterPrefix? name s with
  | none => simp [hafter] at haccessor
  | some r =>
    have hmem : ascii '(' ∈ skipGaps r := by
      have hhead : (skipGaps r).head? = some (ascii '(') := by simpa [hafter] using haccessor.2
      exact List.mem_of_mem_head? hhead
    rw [afterPrefix?_eq_some_iff] at hafter
    refine h ?_
    rw [hafter]
    exact List.mem_append_right _ ((List.dropWhile_sublist _).mem hmem)

/-- A type without braces, parentheses and the keyword `by` does not end before the text does. -/
lemma typeSpan_eq_self {s : Text} (hbrace : ascii '\x7b' ∉ s) (hparen : ascii '(' ∉ s)
    {prev : Option UInt8} (hby : Skips "by" prev s []) : typeSpan prev s = s := by
  induction s generalizing prev with
  | nil => rfl
  | cons b s ih =>
    have hb : b ≠ ascii '\x7b' := fun h => hbrace (by simp [h])
    have hends : typeEndsAt prev (b :: s) = false := by
      simp [typeEndsAt, delegateAt_eq_false hby, accessorAt_eq_false hparen, hb]
    rw [typeSpan, hends, if_neg (by simp), ih (fun h => hbrace (List.mem_cons_of_mem b h))
      (fun h => hparen (List.mem_cons_of_mem b h)) hby.2]

/-! ### Declared types -/

variable {L : Lexicon}

/-- A type as it is declared, with a question mark if the value may be missing. -/
def declaredType (type : TypeSyntax L) (nullable : Bool) : Text := type.text ++ onlyIf nullable "?"

/-- What the scanners need to know about a declared type. -/
structure IsDeclared (L : Lexicon) (s : Text) : Prop where
  /-- The bytes are those of types and question marks. -/
  bytes : s.all fun b => isTypeByte b || b == ascii '?'
  /-- The text starts like an identifier. -/
  starts : s.head?.any isIdentStart
  /-- The text ends with a visible byte. -/
  ends : s.getLast?.any isInk
  /-- No gap follows a word. -/
  tight : isTight s
  /-- No keyword stands in the text. -/
  free : ∀ k, L.Reserves k → Free k s
  /-- The text is coded. -/
  coded : Coded s

/-- A printed type with or without a question mark is a declared type. -/
lemma isDeclared_declaredType (type : TypeSyntax L) (nullable : Bool) :
    IsDeclared L (declaredType type nullable) := by
  have htype := type.isTypeText
  have hbytes := List.all_eq_true.mp htype.bytes
  have hbytes' : type.text.all fun b => isTypeByte b || b == ascii '?' :=
    List.all_eq_true.mpr fun b hb => by simp [hbytes b hb]
  have hmark : utf8 "?" = [ascii '?'] := by decide
  unfold declaredType
  cases nullable with
  | false =>
    simpa [onlyIf] using
      IsDeclared.mk hbytes' htype.starts htype.ends htype.tight htype.free htype.coded
  | true =>
    simp only [onlyIf, if_true]
    exact
      { bytes := by simp [List.all_append, hbytes', hmark]
        starts := head?_append_any htype.starts _
        ends := getLast?_append_any _ (by decide)
        tight := isTight_append htype.tight (by decide) (Or.inr (by decide))
        free := fun k hk => (htype.free k hk).append_sep hk.keyword (by decide)
        coded := htype.coded.append (.of_all (by decide)) }

/-- A byte that is neither one of types nor a question mark does not stand in a declared type. -/
lemma IsDeclared.not_mem {s : Text} (hs : IsDeclared L s) {b : UInt8}
    (hb : (isTypeByte b || b == ascii '?') = false) : b ∉ s := by
  intro h
  have hbyte := List.all_eq_true.mp hs.bytes b h
  rw [hb] at hbyte
  exact absurd hbyte (by simp)

/-- A declared type starts and ends visibly. -/
lemma IsDeclared.isSolid {s : Text} (hs : IsDeclared L s) : isSolid s :=
  isSolid_iff.mpr ⟨head?_isInk_of_isIdentStart hs.starts, hs.ends⟩

/-! ### Names with a type -/

/-- A name with its type and, possibly, a default value. -/
structure TypedName (L : Lexicon) where
  /-- The name. -/
  name : L.Name
  /-- The type. -/
  type : TypeSyntax L
  /-- The value may be missing. -/
  nullable : Bool
  /-- The default value. -/
  default : Option (Value L)

namespace TypedName

variable (n : TypedName L)

/-- The type as it is declared, with its question mark. -/
def declared : Text := declaredType n.type n.nullable

/-- The default value as it is written. -/
def defaultText : Text := n.default.elim [] fun v => " = " ++ v.text

/-- The name and its type as they are written. -/
def text : Text := n.name.1 ++ ": " ++ n.declared ++ n.defaultText

/-- The end of the type is clear: nothing follows it, or `by` is no name. -/
def IsClear : Prop := n.default = none ∨ L.Reserves "by"

/-- The type of a name is a declared type. -/
lemma isDeclared : IsDeclared L n.declared := isDeclared_declaredType n.type n.nullable

/-- The declared type is found in front of the default value. -/
lemma typeText_declared (h : n.IsClear) :
    typeText (ascii ' ' :: (n.declared ++ n.defaultText)) = n.declared := by
  have hD := n.isDeclared
  have htrimmed := (isTrimmed_of_isSolid hD.isSolid).2
  have hnot : ∀ {b : UInt8} {s : Text}, (isTypeByte b || b == ascii '?') = false →
      b ≠ ascii ' ' → b ∉ s → b ∉ ascii ' ' :: (n.declared ++ s) := by
    intro b s hb hspace hs hmem
    rcases List.mem_cons.mp hmem with rfl | hmem
    · exact hspace rfl
    · rcases List.mem_append.mp hmem with hmem | hmem
      · exact hD.not_mem hb hmem
      · exact hs hmem
  unfold defaultText
  cases hdefault : n.default with
  | none =>
    have htight : isTight (ascii ' ' :: (n.declared ++ [])) := by
      rw [List.append_nil]
      exact isTight_append (a := [ascii ' ']) rfl hD.tight (Or.inl (by decide))
    rw [Option.elim_none, typeText, beforeTopLevel_of_not_mem
      (hnot (by decide) (by decide) (by simp)), typeSpan_eq_self
      (hnot (by decide) (by decide) (by simp)) (hnot (by decide) (by decide) (by simp))
      (skips_of_isTight (by decide) htight none)]
    simp [trim_eq_self htrimmed]
  | some v =>
    have hby : L.Reserves "by" := h.resolve_left (by simp [hdefault])
    have hequals : utf8 " = " = [ascii ' ', ascii '=', ascii ' '] := by decide
    have htext : ascii ' ' :: (n.declared ++ (utf8 " = " ++ v.text)) =
        ascii ' ' :: (n.declared ++ [ascii ' ']) ++ ascii '=' :: (ascii ' ' :: v.text) := by
      simp [hequals]
    have hcoded : Coded (ascii ' ' :: (n.declared ++ [ascii ' '])) :=
      (Coded.of_all (s := [ascii ' ']) (by decide)).append (hD.coded.append (.of_all (by decide)))
    have hnested : Nested .grouping (· == ascii '=')
        (ascii ' ' :: (n.declared ++ [ascii ' '])) := by
      refine (hcoded _ _ suits_grouping).of_forall_mem fun b hb => ?_
      have hne : b ≠ ascii '=' := by
        rintro rfl
        exact hnot (by decide) (by decide) (by decide) hb
      simpa using hne
    have hfree : Free "by" (ascii ' ' :: (n.declared ++ [ascii ' '])) :=
      .sep_append hby.keyword (s := [ascii ' ']) (by decide)
        ((hD.free _ hby).append_sep hby.keyword (by decide))
    have hskips : Skips "by" none (ascii ' ' :: (n.declared ++ [ascii ' '])) [] :=
      hfree none [] rfl (by simp [apart])
    rw [Option.elim_some, htext, typeText, beforeTopLevel_nested_append hnested (by decide),
      typeSpan_eq_self (hnot (by decide) (by decide) (by decide))
      (hnot (by decide) (by decide) (by decide)) hskips, trim_blank]
    exact trim_append_spaces htrimmed 1

/-- A value ends visibly. -/
lemma getLast?_value (v : Value L) : v.text.getLast?.any isInk := by
  cases v with
  | number negative digits =>
    have hdigits := digits.2
    simp only [isNumeral, Bool.and_eq_true] at hdigits
    have hne : digits.1 ≠ [] := by
      intro h
      simp [h] at hdigits
    refine getLast?_append_any _ ?_
    rw [List.getLast?_eq_some_getLast hne]
    exact isInk_of_isWord (List.all_eq_true.mp hdigits.2 _ (List.getLast_mem hne))
  | name n => exact (IsTypeRun.of_name n).ends
  | string content =>
    rw [Value.text, ← List.cons_append]
    exact getLast?_append_any _ (by decide)

/-- A declared type with its default value ends visibly. -/
lemma getLast?_declared : (n.declared ++ n.defaultText).getLast?.any isInk := by
  unfold defaultText
  cases n.default with
  | none => simpa using n.isDeclared.ends
  | some v => exact getLast?_append_any _ (getLast?_append_any _ (getLast?_value v))

/-- The name and its type as they are written, cut behind the name. -/
lemma text_eq_append :
    n.text = n.name.1 ++ ascii ':' :: ascii ' ' :: (n.declared ++ n.defaultText) := by
  have hcolon : utf8 ": " = [ascii ':', ascii ' '] := by decide
  simp [text, hcolon]

/-- A name with its type starts like an identifier and ends visibly. -/
lemma head?_text : n.text.head?.any isIdentStart := by
  rw [text_eq_append]
  exact head?_append_any (head?_isIdentStart_of_isIdent (isIdent_of_isName n.name.2)) _

/-- A name with its type ends visibly. -/
lemma getLast?_text : n.text.getLast?.any isInk := by
  rw [text, List.append_assoc]
  exact getLast?_append_any _ n.getLast?_declared

/-- The name stands at the start. -/
lemma identAt_text : identAt n.text = n.name.1 := by
  rw [text_eq_append]
  exact identAt_append (isIdent_of_isName n.name.2) (by simp; decide)

/-- A name with its type is coded. -/
lemma coded : Coded n.text := by
  have hdefault : Coded n.defaultText := by
    unfold defaultText
    cases n.default with
    | none => exact .nil
    | some v => exact (Coded.of_all (by decide)).append v.coded
  exact (((coded_of_isName n.name.2).append (.of_all (by decide))).append
    n.isDeclared.coded).append hdefault

/-- A name with its type holds no keyword. -/
lemma free {k : Text} (hk : L.Avoids k) : Free k n.text := by
  have hdeclared := (free_of_isName hk.toReserves n.name.2).separated hk.keyword (s := ": ")
    (by decide) (n.isDeclared.free k hk.toReserves)
  unfold text defaultText
  cases n.default with
  | none => simpa using hdeclared
  | some v =>
    have h := hdeclared.separated hk.keyword (s := " = ") (by decide) (v.free hk)
    simpa using h

end TypedName

/-! ### Properties -/

/-- The modifiers are words. -/
lemma areWords_modifiers : areWords Kotlin.modifiers := by decide

/-- The word is neither a modifier nor the keyword of a property. -/
def isForeign (w : Text) : Bool := w ∉ Kotlin.modifiers && w != utf8 "val" && w != utf8 "var"

/-- A property without its annotations. -/
structure PropertySyntax (L : Lexicon) where
  /-- The modifiers. -/
  modifiers : List {w : Text // w ∈ Kotlin.modifiers}
  /-- The property can be changed. -/
  isVar : Bool
  /-- The name with its type. -/
  typed : TypedName L

namespace PropertySyntax

variable (p : PropertySyntax L)

/-- The keyword of the property. -/
def keyword : Text := if p.isVar then "var" else "val"

/-- The property behind its modifiers. -/
def declaration : Text := p.keyword ++ " " ++ p.typed.text

/-- The property as it is written behind its annotations. -/
def text : Text := modifierTexts p.modifiers ++ p.declaration

/-- The field that the property declares behind the given annotations. -/
def field (marks : List (MarkSyntax L)) : Field :=
  let constraints := Constraints.ofKotlin (MarkSyntax.texts marks)
  Field.declare p.typed.name.1 p.typed.type.text (p.typed.nullable || constraints.nullable)
    constraints

/-- The keyword of a property is an identifier and no modifier. -/
lemma isIdent_keyword :
    isIdent p.keyword ∧ p.keyword ∉ Kotlin.modifiers ∧ (p.keyword = "val" ∨ p.keyword = "var") := by
  unfold keyword
  cases p.isVar with
  | false => decide
  | true => decide

/-- A property starts with its keyword, behind the modifiers. -/
lemma identAt_declaration :
    p.declaration.head?.any isIdentStart ∧ identAt p.declaration = p.keyword := by
  obtain ⟨hident, -, -⟩ := p.isIdent_keyword
  unfold declaration
  rw [List.append_assoc, utf8_space, List.singleton_append]
  exact ⟨head?_append_any (head?_isIdentStart_of_isIdent hident) _,
    identAt_append hident (by simp; decide)⟩

/-- A property ends visibly. -/
lemma getLast?_text : p.text.getLast?.any isInk :=
  getLast?_append_any _ (getLast?_append_any _ p.typed.getLast?_text)

/-- A question mark at the end of the type says that the value may be missing. -/
lemma declare_declared (constraints : Constraints) :
    (match p.typed.declared.reverse with
      | mark :: base =>
        if mark = ascii '?' then
          some (Field.declare p.typed.name.1 (trim base.reverse) true constraints)
        else some (Field.declare p.typed.name.1 p.typed.declared constraints.nullable constraints)
      | [] => none) =
    some (Field.declare p.typed.name.1 p.typed.type.text
      (p.typed.nullable || constraints.nullable) constraints) := by
  have htype := p.typed.type.isTypeText
  have hmark : utf8 "?" = [ascii '?'] := by decide
  unfold TypedName.declared declaredType
  cases p.typed.nullable with
  | false =>
    obtain ⟨s, b, hlast⟩ : ∃ s b, p.typed.type.text = s ++ [b] := by
      cases hcase : p.typed.type.text using List.reverseRecOn with
      | nil => simpa [hcase] using htype.starts
      | append_singleton s b => exact ⟨s, b, rfl⟩
    have hb : b ≠ ascii '?' := by
      rintro rfl
      have hbyte := List.all_eq_true.mp htype.bytes (ascii '?') (by simp [hlast])
      exact absurd hbyte (by decide)
    simp [onlyIf, hlast, hb]
  | true =>
    simp [onlyIf, hmark, trim_eq_self (isTrimmed_of_isSolid htype.isSolid).2]

/-- A printed property is read back with the annotations in front of it. -/
lemma property?_text (h : p.typed.IsClear) (marks : List (MarkSyntax L)) :
    property? (MarkSyntax.texts marks ++ p.text) = some (p.field marks) := by
  obtain ⟨hident, hmodifier, hkeyword⟩ := p.isIdent_keyword
  obtain ⟨hhead, hidentAt⟩ := p.identAt_declaration
  have htrim : trimEnd (MarkSyntax.texts marks ++ p.text) = MarkSyntax.texts marks ++ p.text :=
    trimEnd_of_getLast? (getLast?_append_any _ p.getLast?_text)
  have hmarks : leadingMarks? spaces (· ∈ Kotlin.modifiers) (MarkSyntax.texts marks ++ p.text) =
      some (MarkSyntax.texts marks, p.declaration) :=
    leadingMarks?_declaration areWords_modifiers marks p.modifiers hhead (hidentAt ▸ hmodifier)
  have hrest : trim (p.declaration.drop p.keyword.length) = p.typed.text := by
    have hsolid : isSolid p.typed.text :=
      isSolid_iff.mpr ⟨head?_isInk_of_isIdentStart p.typed.head?_text, p.typed.getLast?_text⟩
    rw [declaration, List.append_assoc, List.drop_left, utf8_space, List.singleton_append,
      trim_blank, trim_eq_self (isTrimmed_of_isSolid hsolid).2]
  have htype : afterPrefix? ":" (trim (p.typed.text.drop p.typed.name.1.length)) =
      some (ascii ' ' :: (p.typed.declared ++ p.typed.defaultText)) := by
    have hsolid : isSolid (ascii ':' :: ascii ' ' ::
        (p.typed.declared ++ p.typed.defaultText)) :=
      isSolid_append (s := [ascii ':', ascii ' ']) (by decide) p.typed.getLast?_declared
    rw [p.typed.text_eq_append, List.drop_left, trim_eq_self (isTrimmed_of_isSolid hsolid).2,
      afterPrefix?_eq_some_iff, utf8_colon, List.singleton_append]
  have hne := (isTrimmed_of_isSolid p.typed.isDeclared.isSolid).1
  have hname := (isTrimmed_of_isSolid (isSolid_of_isName p.typed.name.2)).1
  have hleading : leadingIdent p.declaration = p.keyword := by
    rw [leadingIdent_eq_identAt hhead, hidentAt]
  have hleadingName : leadingIdent p.typed.text = p.typed.name.1 := by
    rw [leadingIdent_eq_identAt p.typed.head?_text, p.typed.identAt_text]
  simp only [property?, htrim, hmarks, Option.bind_eq_bind, Option.bind_some, hleading, hrest,
    hleadingName, htype, p.typed.typeText_declared h]
  simp only [hkeyword, hne, hname, ne_eq, not_false_iff, guard_true, Option.pure_def,
    Option.bind_some]
  exact p.declare_declared _

/-- A property behind its annotations is coded. -/
lemma coded : Coded p.text := by
  have hkeyword : Coded (p.keyword ++ utf8 " ") := by
    unfold keyword
    cases p.isVar with
    | false => exact .of_all (by decide)
    | true => exact .of_all (by decide)
  exact (coded_modifierTexts areWords_modifiers p.modifiers).append (hkeyword.append p.typed.coded)

/-- A property behind its annotations holds no keyword that is foreign to properties. -/
lemma free {k : Text} (hk : L.Avoids k) (hforeign : isForeign k) : Free k p.text := by
  simp only [isForeign, Bool.and_eq_true, decide_eq_true_eq, bne_iff_ne] at hforeign
  obtain ⟨⟨hmodifier, hval⟩, hvar⟩ := hforeign
  have hkeyword : Free k p.keyword := by
    unfold keyword
    cases p.isVar with
    | false => exact .of_word hk.keyword (by decide) (Ne.symm hval)
    | true => exact .of_word hk.keyword (by decide) (Ne.symm hvar)
  exact free_modifierTexts areWords_modifiers hk.keyword hmodifier p.modifiers
    (hkeyword.separated hk.keyword (by decide) (p.typed.free hk))

end PropertySyntax

/-! ### Parameters -/

/-- The names of the lexicon are names of the dialect: no modifiers and no words that declare
something. -/
structure Speaks (L : Lexicon) : Prop where
  /-- Modifiers are no names. -/
  modifiers : ∀ w ∈ Kotlin.modifiers, w ∈ L.reserved
  /-- The words that declare something are no names. -/
  declarationWords : ∀ w ∈ declarationWords, w ∈ L.reserved
  /-- The keyword of classes is neither a name nor in a literal. -/
  avoids : L.Avoids "class"

/-- A parameter of a constructor or a function. -/
inductive Param (L : Lexicon) where
  /-- A property. -/
  | property (marks : List (MarkSyntax L)) (p : PropertySyntax L)
  /-- A parameter that is no property. -/
  | plain (n : TypedName L)

namespace Param

variable (q : Param L)

/-- The parameter as it is written. -/
def text : Param L → Text
  | property marks p => MarkSyntax.texts marks ++ p.text
  | plain n => n.text

/-- The field that the parameter declares. -/
def field? : Param L → Option Field
  | property marks p => some (p.field marks)
  | plain _ => none

/-- The end of the type is clear if the parameter is a property. -/
def IsClear : Param L → Prop
  | property _ p => p.typed.IsClear
  | plain _ => True

/-- A parameter ends visibly. -/
lemma getLast?_text : q.text.getLast?.any isInk := by
  cases q with
  | property marks p => exact getLast?_append_any _ p.getLast?_text
  | plain n => exact n.getLast?_text

/-- A parameter is coded. -/
lemma coded : Coded q.text := by
  cases q with
  | property marks p => exact (MarkSyntax.coded_texts marks).append p.coded
  | plain n => exact n.coded

/-- A parameter holds no keyword that is foreign to properties. -/
lemma free {k : Text} (hk : L.Avoids k) (hforeign : isForeign k) : Free k q.text := by
  cases q with
  | property marks p => exact MarkSyntax.free_texts hk marks (p.free hk hforeign)
  | plain n => exact n.free hk

/-- A printed parameter is read as the property that it is. -/
lemma property?_text (hL : Speaks L) (h : q.IsClear) : property? q.text = q.field? := by
  cases q with
  | property marks p => exact p.property?_text h marks
  | plain n =>
    have hhead := n.head?_text
    have hreserved := not_mem_of_isName n.name.2
    have hmodifier : identAt n.text ∉ Kotlin.modifiers := by
      rw [n.identAt_text]
      exact fun hmem => hreserved (hL.modifiers _ hmem)
    have hmarks : leadingMarks? spaces (· ∈ Kotlin.modifiers) n.text = some ([], n.text) :=
      leadingMarks?_declaration (L := L) areWords_modifiers [] [] hhead hmodifier
    have hkeyword : ¬ (leadingIdent n.text = "val" ∨ leadingIdent n.text = "var") := by
      rw [leadingIdent_eq_identAt hhead, n.identAt_text]
      rintro (hval | hvar)
      · exact hreserved (hL.declarationWords _ (hval ▸ by decide))
      · exact hreserved (hL.declarationWords _ (hvar ▸ by decide))
    simp only [text, property?, trimEnd_of_getLast? n.getLast?_text, hmarks, Option.bind_eq_bind,
      Option.bind_some, hkeyword, guard_false]
    rfl

/-- A space in front of a parameter is passed. -/
lemma property?_space : property? (ascii ' ' :: q.text) = property? q.text := by
  have hspaced : (ascii ' ' :: q.text).getLast?.any isInk :=
    getLast?_append_any [ascii ' '] q.getLast?_text
  simp only [property?, trimEnd_of_getLast? q.getLast?_text, trimEnd_of_getLast? hspaced,
    leadingMarks?_space]

end Param

/-- The properties among printed parameters are read back. -/
lemma parameterFields_join (hL : Speaks L) {params : List (Param L)}
    (h : ∀ q ∈ params, q.IsClear) :
    parameterFields (join ", " (params.map Param.text)) = params.filterMap Param.field? := by
  cases params with
  | nil => rfl
  | cons q qs =>
    have hne : q.text ≠ [] := by
      intro hnil
      simpa [hnil] using q.getLast?_text
    have hcoded : ∀ s ∈ qs.map Param.text, Coded s := by
      intro s hs
      obtain ⟨r, -, rfl⟩ := List.mem_map.mp hs
      exact r.coded
    obtain ⟨hq, hqs⟩ := List.forall_mem_cons.mp h
    rw [parameterFields, List.map_cons, splitTopLevel_join q.coded hne hcoded, List.map_map,
      List.filterMap_cons, List.filterMap_cons, q.property?_text hL hq, List.filterMap_map]
    have hrest : qs.filterMap (property? ∘ ((fun s => ascii ' ' :: s) ∘ Param.text)) =
        qs.filterMap Param.field? := by
      refine List.filterMap_congr fun r hr => ?_
      rw [Function.comp_apply, Function.comp_apply, r.property?_space,
        r.property?_text hL (hqs r hr)]
    rw [hrest]

end DtoSchema.Declaration.Kotlin
