import DtoSchema.Proofs.Declaration.Keyword
import DtoSchema.Proofs.Source.Code

/-!
# The words of printed declarations

A `Lexicon` says which words are no names and what may stand in string literals; it is a parameter
of everything that is printed, since the dialects reserve different words.  `TypeSyntax` is the
language of declared types: dotted names, arguments in angle brackets and bracket pairs.

What the scanners need to know about a printed type is collected in `IsTypeText`.
-/

namespace DtoSchema.Declaration

open Text Source

/-! ### Names -/

/-- The words that are no names, and the contents of string literals. -/
structure Lexicon where
  /-- The words that are no names. -/
  reserved : List Text
  /-- What may stand in a string literal. -/
  accepts : Text → Bool

namespace Lexicon

variable (L : Lexicon)

/-- The text is a name: an identifier of letters, digits and underscores that is not reserved. -/
def isName (w : Text) : Bool := isIdent w && w.all isWord && w ∉ L.reserved

/-- The text can be the content of a string literal. -/
def isString (s : Text) : Bool := isLiteralContent (ascii '"') s && L.accepts s

/-- A name. -/
abbrev Name := {w : Text // L.isName w}

/-- The keyword `k` is no name. -/
structure Reserves (k : Text) : Prop where
  /-- It is a keyword. -/
  keyword : isKeyword k
  /-- It is no name. -/
  reserved : k ∈ L.reserved

/-- The keyword `k` is no name, and it stands in no number or string literal with a gap behind it. -/
structure Avoids (k : Text) : Prop extends Reserves L k where
  /-- It does not start with a digit. -/
  not_digit : k.head?.any isDigit = false
  /-- No literal holds it. -/
  literal : ∀ s, L.isString s → Free k (ascii '"' :: (s ++ [ascii '"']))

end Lexicon

section Name

variable {L : Lexicon} {w : Text}

/-- A name is an identifier. -/
lemma isIdent_of_isName (h : L.isName w) : isIdent w := by
  simp only [Lexicon.isName, Bool.and_eq_true] at h
  exact h.1.1

/-- A name is a word. -/
lemma all_isWord_of_isName (h : L.isName w) : w.all isWord := by
  simp only [Lexicon.isName, Bool.and_eq_true] at h
  exact h.1.2

/-- A name is not reserved. -/
lemma not_mem_of_isName (h : L.isName w) : w ∉ L.reserved := by
  simp only [Lexicon.isName, Bool.and_eq_true, decide_eq_true_eq] at h
  exact h.2

/-- A name holds no keyword. -/
lemma free_of_isName {k : Text} (hk : L.Reserves k) (h : L.isName w) : Free k w :=
  .of_word hk.keyword (all_isWord_of_isName h) fun hw => not_mem_of_isName h (hw ▸ hk.reserved)

/-- A dotted name holds no keyword. -/
lemma free_dottedName {k : Text} (hk : L.Reserves k) (n : DottedName L.isName) : Free k n.text :=
  .flatMap_sep hk.keyword (fun w _ => free_of_isName hk w.2) (by decide)
    (free_of_isName hk n.last.2)

/-- A name starts and ends visibly. -/
lemma isSolid_of_isName (h : L.isName w) : isSolid w :=
  isSolid_of_isIdentPart
    (head?_isInk_of_isIdentStart (head?_isIdentStart_of_isIdent (isIdent_of_isName h)))
    (getLast?_isIdentPart_of_isIdent (isIdent_of_isName h))

end Name

/-- Names can be read as a byte of the class `start` and bytes of the class `part` behind it. -/
structure ReadsNames (start part : UInt8 → Bool) : Prop where
  /-- What starts an identifier starts a name. -/
  starts : ∀ b, isIdentStart b = true → isWord b = true → start b = true
  /-- A gap starts no name. -/
  not_gap : ∀ b, start b = true → isGap b = false
  /-- Word bytes continue a name. -/
  word : ∀ b, isWord b = true → part b = true
  /-- A space ends a name. -/
  space : part (ascii ' ') = false

namespace ReadsNames

variable {L : Lexicon} {w : Text} {start part : UInt8 → Bool}

/-- The first byte of a name is read. -/
lemma head? (h : ReadsNames start part) (hw : L.isName w) : w.head?.any start := by
  have hstart := head?_isIdentStart_of_isIdent (isIdent_of_isName hw)
  have hall := all_isWord_of_isName hw
  cases w with
  | nil => simp at hstart
  | cons b w =>
    simp only [List.head?_cons, Option.any_some, List.all_cons, Bool.and_eq_true] at hstart hall ⊢
    exact h.starts b hstart hall.1

/-- The further bytes of a name are read. -/
lemma tail (h : ReadsNames start part) (hw : L.isName w) : w.tail.all part := by
  have hall := List.all_eq_true.mp (all_isWord_of_isName hw)
  exact List.all_eq_true.mpr fun b hb => h.word b (hall b (List.mem_of_mem_tail hb))

end ReadsNames

/-- A reserved keyword is avoided if it is no word of a string literal. -/
lemma Lexicon.avoids_of_accepts {L : Lexicon} {k : Text} (hk : L.Reserves k)
    (hdigit : k.head?.any isDigit = false) (haccepts : ∀ s, L.accepts s → lacksWord k s) :
    L.Avoids k where
  toReserves := hk
  not_digit := hdigit
  literal s hs := by
    simp only [isString, Bool.and_eq_true] at hs
    have hquoted := (Free.of_lacksWord hk.keyword (haccepts s hs.2)).append_sep hk.keyword
      (s := [ascii '"']) (by decide)
    exact .sep_append hk.keyword (s := [ascii '"']) (by decide) hquoted

/-! ### Types -/

mutual

/-- A declared type. -/
inductive TypeSyntax (L : Lexicon) where
  /-- A name without arguments. -/
  | name (name : DottedName L.isName)
  /-- A name with arguments in angle brackets. -/
  | generic (name : DottedName L.isName) (arguments : TypeArguments L)
  /-- An array, written with a bracket pair. -/
  | array (member : TypeSyntax L)

/-- The arguments of a type, of which there is at least one. -/
inductive TypeArguments (L : Lexicon) where
  /-- The last argument. -/
  | last (type : TypeSyntax L)
  /-- An argument with more behind it. -/
  | more (type : TypeSyntax L) (rest : TypeArguments L)

end

mutual

/-- The type as it is written. -/
def TypeSyntax.text {L : Lexicon} : TypeSyntax L → Text
  | .name n => n.text
  | .generic n arguments => n.text ++ "<" ++ arguments.text ++ ">"
  | .array member => member.text ++ "[]"

/-- The arguments as they are written. -/
def TypeArguments.text {L : Lexicon} : TypeArguments L → Text
  | .last t => t.text
  | .more t rest => t.text ++ ", " ++ rest.text

end

/-! ### Texts of types -/

/-- The bytes of types. -/
def isTypeByte (b : UInt8) : Bool := isNamePart b || b ∈ utf8 "<>[], "

/-- What types and lists of types have in common when they are printed. -/
structure IsTypeRun (L : Lexicon) (s : Text) : Prop where
  /-- The bytes are those of types. -/
  bytes : s.all isTypeByte
  /-- The text starts like an identifier. -/
  starts : s.head?.any isIdentStart
  /-- The text ends with a visible byte. -/
  ends : s.getLast?.any isInk
  /-- No gap follows a word. -/
  tight : isTight s
  /-- No keyword stands in the text. -/
  free : ∀ k, L.Reserves k → Free k s

/-- What the scanners need to know about a printed type. -/
structure IsTypeText (L : Lexicon) (s : Text) : Prop extends IsTypeRun L s where
  /-- The text is coded. -/
  coded : Coded s

/-- The text can stand behind a type, with or without another type behind it. -/
def isTypeSep (s : Text) : Bool :=
  isSep s && s.all isTypeByte && isTight s && !s.head?.any isGap

namespace IsTypeRun

variable {L : Lexicon} {a b s : Text}

/-- A name is a type. -/
lemma of_name (n : DottedName L.isName) : IsTypeRun L n.text := by
  have hok : ∀ w, L.isName w = true → isIdent w = true := fun _ => isIdent_of_isName
  have hall := n.text_all hok
  have hhead := n.text_head? hok
  refine ⟨?_, hhead, ?_, isTight_of_not_gap ?_, fun k hk => free_dottedName hk n⟩
  · exact all_mono (fun b hb => by simp [isTypeByte, hb]) hall
  · have hne : n.text ≠ [] := by
      intro h
      simp [h] at hhead
    rw [List.getLast?_eq_some_getLast hne]
    exact isInk_of_isNamePart (List.all_eq_true.mp hall _ (List.getLast_mem hne))
  · exact all_mono (fun b hb => by simp [isGap_of_isInk (isInk_of_isNamePart hb)]) hall

/-- A type with a closing bracket behind it. -/
lemma append_sep (ha : IsTypeRun L a) (hs : isTypeSep s) (hlast : s.getLast?.any isInk) :
    IsTypeRun L (a ++ s) := by
  simp only [isTypeSep, Bool.and_eq_true, Bool.not_eq_true'] at hs
  obtain ⟨⟨⟨hsep, hbytes⟩, htight⟩, hgap⟩ := hs
  refine ⟨?_, head?_append_any ha.starts s, getLast?_append_any a hlast,
    isTight_append ha.tight htight (Or.inr hgap),
    fun k hk => (ha.free k hk).append_sep hk.keyword hsep⟩
  rw [List.all_append, ha.bytes, hbytes]
  rfl

/-- Two types with a separator between them. -/
lemma separated (ha : IsTypeRun L a) (hs : isTypeSep s) (hb : IsTypeRun L b) :
    IsTypeRun L (a ++ s ++ b) := by
  simp only [isTypeSep, Bool.and_eq_true, Bool.not_eq_true'] at hs
  obtain ⟨⟨⟨hsep, hbytes⟩, htight⟩, hgap⟩ := hs
  refine ⟨?_, head?_append_any (head?_append_any ha.starts s) b, getLast?_append_any _ hb.ends,
    isTight_append (isTight_append ha.tight htight (Or.inr hgap)) hb.tight
      (Or.inl (getLast?_sep hsep a)),
    fun k hk => (ha.free k hk).separated hk.keyword hsep (hb.free k hk)⟩
  rw [List.all_append, List.all_append, ha.bytes, hbytes, hb.bytes]
  rfl

/-- A type starts and ends visibly. -/
lemma isSolid (hs : IsTypeRun L s) : isSolid s :=
  isSolid_iff.mpr ⟨head?_isInk_of_isIdentStart hs.starts, hs.ends⟩

end IsTypeRun

/-- The bytes of names are bytes of code. -/
lemma coded_of_isNamePart {s : Text} (h : s.all isNamePart) : Coded s :=
  .of_all (all_mono (fun b hb => by simp [isCodeByte, hb]) h)

/-- A dotted name is coded. -/
lemma coded_dottedName {L : Lexicon} (n : DottedName L.isName) : Coded n.text :=
  coded_of_isNamePart (n.text_all fun _ => isIdent_of_isName)

mutual

/-- A printed type is the text of a type. -/
theorem TypeSyntax.isTypeText {L : Lexicon} : ∀ t : TypeSyntax L, IsTypeText L t.text
  | .name n => ⟨.of_name n, coded_dottedName n⟩
  | .generic n arguments => by
    obtain ⟨hrun, hcoded⟩ := arguments.isArgumentText
    have hgroup : Coded (ascii '<' :: (arguments.text ++ [ascii '>'])) :=
      .surround (p := (ascii '<', ascii '>')) (by decide) hcoded
    refine ⟨(IsTypeRun.separated (.of_name n) (by decide) hrun).append_sep (by decide) (by decide),
      ?_⟩
    simpa [TypeSyntax.text, utf8_openAngle, utf8_closeAngle] using
      (coded_dottedName n).append hgroup
  | .array member => by
    have hmember := member.isTypeText
    have hpair : Coded (utf8 "[]") :=
      .surround (s := []) (p := (ascii '[', ascii ']')) (by decide) Coded.nil.list
    exact ⟨hmember.append_sep (by decide) (by decide), hmember.coded.append hpair⟩

/-- Printed arguments are a list of types. -/
theorem TypeArguments.isArgumentText {L : Lexicon} :
    ∀ a : TypeArguments L, IsTypeRun L a.text ∧ CodedList a.text
  | .last t => ⟨t.isTypeText.toIsTypeRun, t.isTypeText.coded.list⟩
  | .more t rest => by
    have ht := t.isTypeText
    obtain ⟨hrun, hcoded⟩ := rest.isArgumentText
    exact ⟨ht.separated (by decide) hrun, (ht.coded.list.append .comma).append hcoded⟩

end

/-! ### Optional types -/

/-- The names of the types that hold a value or none. -/
def optionalNames : List Text := ["Optional", "java.util.Optional"]

/-- The type, bracket pairs apart, is one that holds a value or none. -/
def TypeSyntax.isOptional {L : Lexicon} : TypeSyntax L → Bool
  | .name _ => false
  | .generic n _ => n.text ∈ optionalNames
  | .array member => member.isOptional

/-- A printed type starts with a name, and it is optional if arguments follow the name of an
optional type. -/
theorem TypeSyntax.exists_hasTypeShape {L : Lexicon} : ∀ t : TypeSyntax L,
    ∃ (n : DottedName L.isName) (rest : Text), HasTypeShape t.text n.text rest ∧
      t.isOptional = (n.text ∈ optionalNames && rest.head? == some (ascii '<'))
  | .name n => ⟨n, [], ⟨by simp [text], n.text_all fun _ => isIdent_of_isName, by simp⟩,
      by simp [isOptional]⟩
  | .generic n arguments => by
    have hopen : utf8 "<" = [ascii '<'] := by decide
    refine ⟨n, "<" ++ arguments.text ++ ">", ⟨by simp [text],
      n.text_all fun _ => isIdent_of_isName, ?_⟩, by simp [isOptional, hopen]⟩
    intro b hb
    simp_all
  | .array member => by
    obtain ⟨n, rest, hshape, hoptional⟩ := member.exists_hasTypeShape
    have hpair : utf8 "[]" = [ascii '[', ascii ']'] := by decide
    refine ⟨n, rest ++ "[]", ⟨by simp [text, hshape.eq_append], hshape.name_all, ?_⟩, ?_⟩
    · intro b hb
      cases rest with
      | nil => simp_all
      | cons c rest => exact hshape.rest_head b (by simpa using hb)
    · rw [isOptional, hoptional]
      cases rest with
      | nil => simp [hpair, show ascii '[' ≠ ascii '<' by decide]
      | cons c rest => simp

/-- The identifier at the start of a printed type is a name. -/
lemma TypeSyntax.isName_identAt {L : Lexicon} (t : TypeSyntax L) {s : Text}
    (hs : s.head?.any isIdentPart = false) : L.isName (identAt (t.text ++ s)) := by
  obtain ⟨n, rest, hshape, -⟩ := t.exists_hasTypeShape
  obtain ⟨w, more, hn, hmore⟩ := n.text_eq_first_append
  have hdot : isIdentPart (ascii '.') = false := by decide
  have hrest : (rest ++ s).head?.any isIdentPart = false := by
    cases hcase : rest with
    | nil => exact hs
    | cons b rest' =>
      rcases hshape.rest_head b (by simp [hcase]) with rfl | rfl <;> simp <;> decide
  have hstop : (more ++ (rest ++ s)).head?.any isIdentPart = false := by
    rcases hmore with rfl | hmore
    · exact hrest
    · cases more with
      | nil => simp at hmore
      | cons b more =>
        obtain rfl : b = ascii '.' := by simpa using hmore
        simp [hdot]
  rw [hshape.eq_append, hn, List.append_assoc, List.append_assoc,
    identAt_append (isIdent_of_isName w.2) hstop]
  exact w.2

/-! ### Blocks -/

/-- The text can stand between the braces of a method: its braces match, and it does not declare a
class. -/
def IsBlock (s : Text) : Prop := Balanced .braces s ∧ lacksWord "class" s

/-- A text in braces. -/
def blockText (body : Text) : Text := ascii '\x7b' :: (body ++ [ascii '\x7d'])

/-- A block holds no header of a class. -/
lemma free_blockText (hk : isKeyword "class") {body : Text} (h : IsBlock body) :
    Free "class" (blockText body) := by
  have hclosed := (Free.of_lacksWord hk h.2).append_sep hk (s := [ascii '\x7d']) (by decide)
  exact Free.sep_append hk (s := [ascii '\x7b']) (by decide) hclosed

/-- The block behind a header is its body. -/
lemma body?_blockText {body : Text} (h : Balanced .braces body) (t : Text) :
    body? (ascii ' ' :: (blockText body ++ t)) = some body := by
  have hblock : blockText body ++ t = ascii '\x7b' :: (body ++ ascii '\x7d' :: t) := by
    simp [blockText]
  have hident : ∀ s, identAt (ascii ' ' :: s) = [] := identAt_eq_nil (by decide)
  have hstart : bodyStart? (ascii ' ' :: (blockText body ++ t)) = some (blockText body ++ t) := by
    rw [bodyStart?, bodyStartFrom?, if_neg (by decide), if_neg (by decide), if_neg (by decide),
      if_neg (by decide)]
    simp only [hident]
    rw [if_neg (by decide), List.length_nil, hblock, bodyStartFrom?, if_pos rfl]
  have hread : readBalanced? (ascii '\x7b') (ascii '\x7d') (blockText body ++ t) =
      some (body, t) := by
    rw [hblock]
    exact readBalanced?_nested (by decide) h t
  rw [body?, hstart, Option.bind_some, hread, Option.map_some]

end DtoSchema.Declaration
