import DtoSchema.Declaration.Java
import DtoSchema.Proofs.Declaration.MarkSyntax

/-!
# Printed field statements of the Java dialect

`FieldSyntax` is the language of statements that declare fields: annotations, modifiers, a type and
one declarator or more, each with its bracket pairs.  A printed statement is taken apart into the
fields that it declares (`FieldSyntax.statementFields_text`).
-/

namespace DtoSchema.Declaration.Java

open Text Source

/-! ### Declarators -/

/-- One more bracket pair behind a type. -/
lemma arrayOf_succ (u : Text) (n : ℕ) : arrayOf u (n + 1) = arrayOf u n ++ "[]" := by
  simp [arrayOf, List.replicate_succ']

/-- A text that starts and ends visibly does so with bracket pairs behind it. -/
lemma isSolid_arrayOf {u : Text} (hu : isSolid u) (n : ℕ) : isSolid (arrayOf u n) := by
  induction n with
  | zero => simpa [arrayOf] using hu
  | succ n ih =>
    rw [arrayOf_succ]
    exact isSolid_append (isSolid_iff.mp ih).1 (by decide)

/-- No bracket pair is taken off behind a name. -/
lemma dropPair?_eq_none {u : Text} (hend : u.getLast?.any isIdentPart) : dropPair? u = none := by
  cases u using List.reverseRecOn with
  | nil => rfl
  | append_singleton u b =>
    have hb : b ≠ ascii ']' := ne_of_class (by simpa using hend) (by decide)
    simp [dropPair?, hb]

/-- The bracket pairs behind a name are counted. -/
lemma dropPairs_arrayOf {u : Text} (hstart : u.head?.any isInk)
    (hend : u.getLast?.any isIdentPart) {n limit : ℕ} (hlimit : n ≤ limit) :
    dropPairs limit (arrayOf u n) = (u, n) := by
  have hsolid := isSolid_of_isIdentPart hstart hend
  induction n generalizing limit with
  | zero =>
    have htrim := trim_eq_self (isTrimmed_of_isSolid hsolid).2
    cases limit with
    | zero => simp [arrayOf, dropPairs, htrim]
    | succ limit => simp [arrayOf, dropPairs, htrim, dropPair?_eq_none hend]
  | succ n ih =>
    obtain ⟨limit, rfl⟩ := Nat.exists_eq_add_one_of_ne_zero (by omega : limit ≠ 0)
    have hopened : isSolid (arrayOf u n ++ [ascii '[']) :=
      isSolid_append (isSolid_iff.mp (isSolid_arrayOf hsolid n)).1 (by decide)
    have hdrop : dropPair? (arrayOf u (n + 1)) = some (arrayOf u n) := by
      rw [arrayOf_succ, utf8_pair]
      simp [dropPair?, trim_eq_self (isTrimmed_of_isSolid hopened).2]
    rw [dropPairs, trim_eq_self (isTrimmed_of_isSolid (isSolid_arrayOf hsolid (n + 1))).2, hdrop]
    simp only [ih (by omega : n ≤ limit)]

/-- A name with bracket pairs behind it is split into both. -/
lemma splitPairs_arrayOf {u : Text} (hstart : u.head?.any isInk)
    (hend : u.getLast?.any isIdentPart) (n : ℕ) : splitPairs (arrayOf u n) = (u, n) := by
  refine dropPairs_arrayOf hstart hend ?_
  have hpair : (utf8 "[]").length = 2 := by decide
  induction n with
  | zero => simp
  | succ n ih =>
    rw [arrayOf_succ, List.length_append, hpair]
    omega

/-- A method has an opening parenthesis. -/
lemma hasCall_of_not_mem {s : Text} (h : ascii '(' ∉ s) : hasCall s = false := by
  induction s with
  | nil => rfl
  | cons b s ih =>
    simp only [List.mem_cons, not_or] at h
    have hcall : callAt (b :: s) = false := by
      have hhead : (skipGaps (s.dropWhile isIdentPart)).head? ≠ some (ascii '(') := by
        intro hsome
        have hmem := List.mem_of_mem_head? (by simpa using hsome)
        exact h.2 ((List.dropWhile_suffix _).subset ((List.dropWhile_suffix _).subset hmem))
      simp [callAt, hhead]
    simp [hasCall, hcall, ih h.2]

/-! ### Field statements -/

/-- A declarator: a name with bracket pairs behind it. -/
structure Declarator (L : Lexicon) where
  /-- The name. -/
  name : L.Name
  /-- The number of bracket pairs. -/
  pairs : ℕ

/-- The declarator as it is written. -/
def Declarator.text {L : Lexicon} (d : Declarator L) : Text := arrayOf d.name.1 d.pairs

/-- A statement that declares fields. -/
structure FieldSyntax (L : Lexicon) where
  /-- The annotations. -/
  marks : List (MarkSyntax L)
  /-- The modifiers. -/
  modifiers : List {w : Text // w ∈ Java.modifiers}
  /-- The type in front of the declarators. -/
  type : TypeSyntax L
  /-- The first declarator. -/
  first : Declarator L
  /-- The further declarators. -/
  more : List (Declarator L)

namespace FieldSyntax

variable {L : Lexicon} (f : FieldSyntax L)

/-- The statement behind its annotations and modifiers. -/
def declaration : Text :=
  f.type.text ++ " " ++ join ", " ((f.first :: f.more).map Declarator.text)

/-- The statement as it is written, up to the semicolon. -/
def text : Text := MarkSyntax.texts f.marks ++ (modifierTexts f.modifiers ++ f.declaration)

/-- What the annotations of the statement say. -/
def constraints : Constraints := (f.marks.map MarkSyntax.mark).foldl Constraints.add {}

/-- The fields that the statement declares. -/
def fields : List Field :=
  (f.first :: f.more).map fun d =>
    Field.declare d.name.1 (arrayOf f.type.text d.pairs)
      (f.constraints.nullable || f.type.isOptional) f.constraints

end FieldSyntax

section Declarator

variable {L : Lexicon} (d : Declarator L)

/-- A declarator starts and ends visibly. -/
lemma Declarator.isSolid_text : isSolid d.text :=
  isSolid_arrayOf (isSolid_of_isName d.name.2) d.pairs

/-- A declarator is made of the bytes of types. -/
lemma Declarator.bytes : d.text.all isTypeByte := by
  have hname := List.all_eq_true.mp (all_isIdentPart_of_isIdent (isIdent_of_isName d.name.2))
  unfold text
  induction d.pairs with
  | zero =>
    simp only [arrayOf, List.replicate_zero, List.flatMap_nil, List.append_nil]
    exact List.all_eq_true.mpr fun b hb => by simp [isTypeByte, isNamePart, hname b hb]
  | succ n ih =>
    rw [arrayOf_succ, List.all_append, ih]
    decide

/-- A declarator is coded. -/
lemma Declarator.coded : Coded d.text := by
  have hpair : Coded (utf8 "[]") :=
    .surround (s := []) (p := (ascii '[', ascii ']')) (by decide) Coded.nil.list
  unfold text
  induction d.pairs with
  | zero => simpa [arrayOf] using coded_of_isName d.name.2
  | succ n ih => exact arrayOf_succ _ n ▸ ih.append hpair

/-- A declarator holds no keyword. -/
lemma Declarator.free {k : Text} (hk : L.Reserves k) : Free k d.text := by
  unfold text
  induction d.pairs with
  | zero => simpa [arrayOf] using free_of_isName hk d.name.2
  | succ n ih => exact arrayOf_succ _ n ▸ ih.append_sep hk.keyword (by decide)

/-- A further declarator is read as its name and its bracket pairs. -/
lemma Declarator.nameAndPairs?_text : nameAndPairs? d.text = some (d.name.1, d.pairs) := by
  have hident := isIdent_of_isName d.name.2
  have hstart := (isSolid_iff.mp (isSolid_of_isName d.name.2)).1
  have hend := getLast?_isIdentPart_of_isIdent hident
  simp [nameAndPairs?, text, splitPairs_arrayOf hstart hend, hident]

/-- A type and a declarator are separated at the space between them. -/
lemma Declarator.typeAndName?_text (t : TypeSyntax L) :
    typeAndName? (t.text ++ " " ++ d.text) = some (t.text, d.name.1, d.pairs) := by
  have hident := isIdent_of_isName d.name.2
  have hpart : isIdentPart (ascii ' ') = false := by decide
  obtain ⟨htne, htrimmed⟩ := isTrimmed_of_isSolid t.isTypeText.isSolid
  -- the declarator with the type in front of it is a longer name with the same bracket pairs
  have htext : t.text ++ " " ++ d.text = arrayOf (t.text ++ [ascii ' '] ++ d.name.1) d.pairs := by
    simp [Declarator.text, arrayOf, utf8_space]
  have hpairs : splitPairs (arrayOf (t.text ++ [ascii ' '] ++ d.name.1) d.pairs) =
      (t.text ++ [ascii ' '] ++ d.name.1, d.pairs) := by
    have hstart := (isSolid_iff.mp t.isTypeText.isSolid).1
    exact splitPairs_arrayOf (head?_append_any (head?_append_any hstart _) _)
      (getLast?_append_any _ (getLast?_isIdentPart_of_isIdent hident)) d.pairs
  have hname : ((t.text ++ [ascii ' '] ++ d.name.1).reverse.takeWhile isIdentPart).reverse =
      d.name.1 := by
    have hall := List.all_eq_true.mp (all_isIdentPart_of_isIdent hident)
    rw [List.reverse_append, List.takeWhile_append_of_pos (by simpa using hall)]
    simp [hpart]
  have htype : trim ((t.text ++ [ascii ' '] ++ d.name.1).take
      ((t.text ++ [ascii ' '] ++ d.name.1).length - d.name.1.length)) = t.text := by
    have hlen : (t.text ++ [ascii ' '] ++ d.name.1).length - d.name.1.length =
        (t.text ++ [ascii ' ']).length := by
      rw [List.length_append, Nat.add_sub_cancel]
    rw [hlen, List.take_left]
    exact trim_append_spaces htrimmed 1
  simp only [typeAndName?, htext, hpairs, hname, htype, hident, htne, ne_eq, not_false_iff,
    and_self, if_true]

end Declarator

/-! ### Optional types -/

/-- Arguments follow a word at the start of a type exactly when the word is its name. -/
lemma arguments_follow_iff {s name rest w : Text} (hs : HasTypeShape s name rest)
    (hw : w.all isNamePart) :
    (afterPrefix? w s).any (fun r => (skipGaps r).head? == some (ascii '<')) =
      (decide (name = w) && rest.head? == some (ascii '<')) := by
  cases h : afterPrefix? w s with
  | none =>
    have hne : name ≠ w := by
      rintro rfl
      rw [hs.eq_append, afterPrefix?_append] at h
      exact absurd h (by simp)
    simp [hne]
  | some r =>
    obtain ⟨u, hname, rfl⟩ := hs.afterPrefix? hw h
    obtain ⟨hskip, hopen⟩ := hs.skipGaps hname
    rw [Bool.eq_iff_iff]
    simp only [Option.any_some, hskip, beq_iff_eq, Bool.and_eq_true, decide_eq_true_eq]
    refine ⟨hopen, ?_⟩
    rintro ⟨rfl, hrest⟩
    have hu : u = [] := by simpa using hname
    simpa [hu] using hrest

/-- A printed type is recognised as optional when it is. -/
lemma isOptionalType_text {L : Lexicon} (t : TypeSyntax L) :
    isOptionalType t.text = t.isOptional := by
  obtain ⟨n, rest, hshape, hoptional⟩ := t.exists_hasTypeShape
  generalize t.text = s at hshape ⊢
  generalize n.text = name at hshape hoptional
  have hany : isOptionalType s =
      (afterPrefix? "Optional" ((afterPrefix? "java.util." s).getD s)).any
        fun r => (skipGaps r).head? == some (ascii '<') := by
    cases h : afterPrefix? "Optional" ((afterPrefix? "java.util." s).getD s) <;>
      simp [isOptionalType, h]
  have hqualified : utf8 "java.util.Optional" = utf8 "java.util." ++ utf8 "Optional" := by decide
  rw [hany, hoptional]
  cases h : afterPrefix? "java.util." s with
  | none =>
    have hne : name ≠ "java.util.Optional" := by
      rintro rfl
      rw [hshape.eq_append, hqualified, List.append_assoc, afterPrefix?_append] at h
      exact absurd h (by simp)
    rw [Option.getD_none, arguments_follow_iff hshape (by decide)]
    simp [optionalNames, hne]
  | some r =>
    obtain ⟨u, hname, rfl⟩ := hshape.afterPrefix? (by decide) h
    have hall := hshape.name_all
    rw [hname, List.all_append, Bool.and_eq_true] at hall
    have hinner : HasTypeShape (u ++ rest) u rest := ⟨rfl, hall.2, hshape.rest_head⟩
    have hne : utf8 "java.util." ++ u ≠ "Optional" := by
      intro heq
      have hhead := congrArg List.head? heq
      rw [List.head?_append_of_ne_nil _ (by decide)] at hhead
      exact absurd hhead (by decide)
    rw [Option.getD_some, arguments_follow_iff hinner (by decide)]
    simp [optionalNames, hne, hname, hqualified]

/-! ### Field statements are read back -/

/-- The names of the lexicon are names of the dialect: no modifiers and no words that declare a
type. -/
structure Speaks (L : Lexicon) : Prop where
  /-- Modifiers are no names. -/
  modifiers : ∀ w ∈ Java.modifiers, w ∈ L.reserved
  /-- The words that declare a type are no names. -/
  typeWords : ∀ w ∈ Java.typeWords, w ∈ L.reserved
  /-- The keyword of classes is neither a name nor in a literal. -/
  avoids : L.Avoids "class"

/-- The modifiers are words. -/
lemma areWords_modifiers : areWords Java.modifiers := by decide

namespace FieldSyntax

variable {L : Lexicon} (f : FieldSyntax L)

/-- A declaration is a list whose first part is the type with the first declarator. -/
lemma declaration_eq_join : f.declaration =
    join ", " ((f.type.text ++ " " ++ f.first.text) :: f.more.map Declarator.text) := by
  rw [declaration, List.map_cons, append_join]

/-- A declaration is made of the bytes of types. -/
lemma bytes_declaration : f.declaration.all isTypeByte := by
  have hds : ∀ ds : List (Declarator L), (join ", " (ds.map Declarator.text)).all isTypeByte := by
    intro ds
    induction ds with
    | nil => rfl
    | cons d ds ih =>
      cases ds with
      | nil => simpa [join] using d.bytes
      | cons e es =>
        rw [List.map_cons, List.map_cons, join_cons_cons, List.all_append, List.all_append, d.bytes,
          ← List.map_cons, ih]
        decide
  rw [declaration, List.all_append, List.all_append, f.type.isTypeText.bytes, hds]
  decide

/-- A declaration ends with a visible byte. -/
lemma getLast?_declaration : f.declaration.getLast?.any isInk := by
  refine getLast?_append_any _ (getLast?_join (by simp) fun q hq => ?_)
  obtain ⟨d, -, rfl⟩ := List.mem_map.mp hq
  exact (isSolid_iff.mp d.isSolid_text).2

/-- A declaration starts with a word that is no modifier and declares no type. -/
lemma identAt_declaration (hL : Speaks L) : f.declaration.head?.any isIdentStart ∧
    identAt f.declaration ∉ Java.modifiers ∧ identAt f.declaration ∉ Java.typeWords := by
  have hname : L.isName (identAt f.declaration) := by
    rw [declaration, List.append_assoc]
    exact f.type.isName_identAt (by simp [utf8_space]; decide)
  refine ⟨?_, fun h => not_mem_of_isName hname (hL.modifiers _ h),
    fun h => not_mem_of_isName hname (hL.typeWords _ h)⟩
  rw [declaration, List.append_assoc]
  exact head?_append_any f.type.isTypeText.starts _

/-- The declarators of a statement are read back. -/
lemma splitTopLevel_declaration : splitTopLevel (ascii ',') f.declaration =
    (f.type.text ++ " " ++ f.first.text) :: f.more.map fun d => ascii ' ' :: d.text := by
  have hspace : Coded (utf8 " ") := .of_all (by decide)
  have hfirst := (f.type.isTypeText.coded.append hspace).append f.first.coded
  have hne := (isTrimmed_of_isSolid f.first.isSolid_text).1
  rw [declaration_eq_join, splitTopLevel_join hfirst (by simp [hne])]
  · simp
  · intro q hq
    obtain ⟨d, -, rfl⟩ := List.mem_map.mp hq
    exact d.coded

/-- The constraints of a printed statement are those of its annotations. -/
lemma ofJava_texts : Constraints.ofJava (MarkSyntax.texts f.marks) = f.constraints := by
  rw [Constraints.ofJava, MarkSyntax.readAll_texts, constraints]

/-- Without an initializer a declarator stays as it is. -/
lemma dropInitializer_eq_self {s : Text} (hbytes : s.all isTypeByte) :
    dropInitializer s = trim s := by
  have hmem : ascii '=' ∉ s := fun h => absurd (List.all_eq_true.mp hbytes _ h) (by decide)
  rw [dropInitializer, beforeTopLevel_of_not_mem hmem]

/-- The further declarators of a statement are read back. -/
lemma filterMap_declarators (ds : List (Declarator L)) :
    (ds.map fun d => ascii ' ' :: d.text).filterMap (nameAndPairs? ∘ dropInitializer) =
      ds.map fun d => (d.name.1, d.pairs) := by
  induction ds with
  | nil => rfl
  | cons d ds ih =>
    have hbytes : (ascii ' ' :: d.text).all isTypeByte := by
      rw [List.all_cons, d.bytes]
      decide
    have hd : (nameAndPairs? ∘ dropInitializer) (ascii ' ' :: d.text) =
        some (d.name.1, d.pairs) := by
      rw [Function.comp_apply, dropInitializer_eq_self hbytes, trim_blank,
        trim_eq_self (isTrimmed_of_isSolid d.isSolid_text).2, d.nameAndPairs?_text]
    rw [List.map_cons, List.filterMap_cons_some hd, ih, List.map_cons]

/-- The type with the first declarator is read back. -/
lemma typeAndName?_first :
    typeAndName? (dropInitializer (f.type.text ++ " " ++ f.first.text)) =
      some (f.type.text, f.first.name.1, f.first.pairs) := by
  have ht := f.type.isTypeText
  have hbytes : (f.type.text ++ " " ++ f.first.text).all isTypeByte := by
    rw [List.all_append, List.all_append, ht.bytes, f.first.bytes]
    decide
  have hsolid : isSolid (f.type.text ++ " " ++ f.first.text) :=
    isSolid_append (head?_append_any (isSolid_iff.mp ht.isSolid).1 _)
      (isSolid_iff.mp f.first.isSolid_text).2
  rw [dropInitializer_eq_self hbytes, trim_eq_self (isTrimmed_of_isSolid hsolid).2,
    f.first.typeAndName?_text]

/-- The fields of a printed statement are those that it declares. -/
lemma statementFields_text (hL : Speaks L) : statementFields (ascii ' ' :: f.text) = f.fields := by
  obtain ⟨hhead, hmodifier, htype⟩ := f.identAt_declaration hL
  have htrim : trimEnd (ascii ' ' :: f.text) = ascii ' ' :: f.text := by
    refine trimEnd_of_getLast? (getLast?_append_any [ascii ' '] ?_)
    exact getLast?_append_any _ (getLast?_append_any _ f.getLast?_declaration)
  have hmarks : leadingMarks? spaces (· ∈ Java.modifiers) (ascii ' ' :: f.text) =
      some (MarkSyntax.texts f.marks, f.declaration) := by
    rw [leadingMarks?_space, text]
    exact leadingMarks?_declaration areWords_modifiers f.marks f.modifiers hhead hmodifier
  have hident : leadingIdent f.declaration ∉ Java.typeWords := by
    rwa [leadingIdent_eq_identAt hhead]
  have hcall : hasCall (beforeTopLevel (ascii '=') f.declaration) = false := by
    have hbytes := List.all_eq_true.mp f.bytes_declaration
    rw [beforeTopLevel_of_not_mem fun h => absurd (hbytes _ h) (by decide)]
    exact hasCall_of_not_mem fun h => absurd (hbytes _ h) (by decide)
  simp only [statementFields, htrim, hmarks, hident, hcall, f.splitTopLevel_declaration,
    f.typeAndName?_first, filterMap_declarators, f.ofJava_texts, isOptionalType_text]
  simp [fields]

end FieldSyntax

end DtoSchema.Declaration.Java
