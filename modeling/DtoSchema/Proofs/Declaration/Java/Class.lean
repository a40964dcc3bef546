import DtoSchema.Proofs.Declaration.Java.Field
import DtoSchema.Proofs.Declaration.Merging

/-!
# Printed classes of the Java dialect are read back

`ClassSyntax` is the language of classes with fields, methods, constructors and initializers, with
its printing `ClassSyntax.text` and the declaration `ClassSyntax.decl` that it stands for.

Reading goes through the whole source for headers and cuts a body into statements.  For each of
these steps there is a lemma about a printed piece with any text behind it: `scan_nested` and its
companions for statements, `Member.scan_text` for a member among others and `occurrencesFrom_class`
for a class among others.  `filterMap_occurrences_source` follows the classes of a source, whatever
is read at their headers, and `classes_source` puts all together.
-/

namespace DtoSchema.Declaration.Java

open Text Source

/-! ### Statements -/

/-- The statements of a text, given the statement begun so far. -/
def scan (begun s : Text) : List Text := statementsFrom begun (bodyPieces s)

/-- Bytes of the last piece are passed. -/
lemma bodyPiecesFrom_pass (a t : Text) : bodyPiecesFrom a.length (a ++ t) = bodyPieces t := by
  induction a with
  | nil => rfl
  | cons b a ih => simpa [bodyPiecesFrom] using ih

/-- The width of a literal is that of its content and the closing quote. -/
lemma literalWidth_append {q : Quoting} {t : Text} (h : Literal q t) (s : Text) :
    literalWidth q (t ++ s) = t.length := by
  induction h with
  | close _ hb => simp [literalWidth, hb]
  | @more q b t _ hb _ ih =>
    rw [List.cons_append, literalWidth]
    cases hstep : q.step b with
    | code => exact absurd hstep hb
    | inside _ => simpa [hstep] using ih
    | escape _ => simpa [hstep] using ih

/-- A literal ends inside of its text. -/
lemma literalWidth_le (q : Quoting) (s : Text) : literalWidth q s ≤ s.length := by
  induction s generalizing q with
  | nil => exact Nat.zero_le _
  | cons b s ih =>
    rw [literalWidth, List.length_cons]
    split
    · omega
    · exact Nat.succ_le_succ (ih _)

lemma bodyPieces_byte {b : UInt8} (hquote : isQuote b = false) (hopen : b ≠ ascii '(')
    (hbrace : b ≠ ascii '\x7b') (t : Text) : bodyPieces (b :: t) = .byte b :: bodyPieces t := by
  simp [bodyPieces, bodyPiecesFrom, hquote, hopen, hbrace]

/-- A literal is one piece. -/
lemma bodyPieces_quote {b : UInt8} (hb : isQuote b) (s : Text) :
    bodyPieces (b :: s) = .closed (b :: s.take (literalWidth (.inside b) s)) ::
      bodyPieces (s.drop (literalWidth (.inside b) s)) := by
  have hpass := bodyPiecesFrom_pass (s.take (literalWidth (.inside b) s))
    (s.drop (literalWidth (.inside b) s))
  rw [List.take_append_drop, List.length_take, Nat.min_eq_left (literalWidth_le _ s)] at hpass
  simp only [bodyPieces, bodyPiecesFrom, hb, if_true, hpass]

lemma bodyPieces_literal {q : UInt8} (hq : isQuote q) {l : Text} (hl : Literal (.inside q) l)
    (t : Text) : bodyPieces (q :: (l ++ t)) = .closed (q :: l) :: bodyPieces t := by
  rw [bodyPieces_quote hq, literalWidth_append hl, List.take_left, List.drop_left]

/-- The bytes of a block are passed with its closing byte. -/
lemma bodyPiecesFrom_block {o c : UInt8} {s content rest : Text}
    (h : readBalanced? o c (o :: s) = some (content, rest)) :
    bodyPiecesFrom (content.length + 1) s = bodyPieces rest := by
  rw [(List.cons.inj (eq_of_readBalanced? h)).2]
  simpa using bodyPiecesFrom_pass (content ++ [c]) rest

/-- A group in parentheses is one piece. -/
lemma bodyPieces_parens {s content rest : Text}
    (h : readBalanced? (ascii '(') (ascii ')') (ascii '(' :: s) = some (content, rest)) :
    bodyPieces (ascii '(' :: s) =
      .closed (ascii '(' :: (content ++ [ascii ')'])) :: bodyPieces rest := by
  have hquote : isQuote (ascii '(') = false := by decide
  simp only [bodyPieces, bodyPiecesFrom, hquote, h, if_true, bodyPiecesFrom_block h]
  simp [utf8_closeParen]

/-- A block in braces is one piece. -/
lemma bodyPieces_braces {s content rest : Text}
    (h : readBalanced? (ascii '\x7b') (ascii '\x7d') (ascii '\x7b' :: s) = some (content, rest)) :
    bodyPieces (ascii '\x7b' :: s) =
      .block (ascii '\x7b' :: (content ++ [ascii '\x7d'])) :: bodyPieces rest := by
  have hquote : isQuote (ascii '\x7b') = false := by decide
  have hopen : ascii '\x7b' ≠ ascii '(' := by decide
  simp only [bodyPieces, bodyPiecesFrom, hquote, hopen, h, if_true, if_false,
    bodyPiecesFrom_block h]
  simp

/-- The bytes that end a statement or open a block. -/
def isEnd (b : UInt8) : Bool := b == ascii ';' || isBrace b

/-- A byte of a statement is added to it. -/
lemma scan_byte {b : UInt8} (hquote : isQuote b = false) (hopen : b ≠ ascii '(')
    (hend : isEnd b = false) (begun s : Text) : scan begun (b :: s) = scan (begun ++ [b]) s := by
  simp only [isEnd, isBrace, Bool.or_eq_false_iff, beq_eq_false_iff_ne] at hend
  rw [scan, bodyPieces_byte hquote hopen hend.2.1, statementsFrom, if_neg hend.1, scan]

/-- A text in which parentheses match belongs to the statement that was begun. -/
lemma scan_nested {s : Text} (hs : Nested (.single (ascii '(') (ascii ')')) isEnd s)
    (begun t : Text) : scan begun (s ++ t) = scan (begun ++ s) t := by
  generalize hsep : isEnd = sep at hs
  induction hs generalizing begun with
  | nil => simp
  | @byte sep b s hb hb' _ ih =>
    subst hsep
    have hplain : isQuote b = false ∧ b ≠ ascii '(' ∧ b ≠ ascii ')' := by
      simpa [Brackets.isPlain, Brackets.single, and_assoc] using hb
    rw [List.cons_append, scan_byte hplain.1 hplain.2.1 hb', ih _ rfl]
    simp
  | @literal sep q l s hq hl _ ih =>
    have hrest := ih (begun ++ q :: l) hsep
    rw [List.cons_append, List.append_assoc, scan, bodyPieces_literal hq hl, statementsFrom]
    simpa [scan] using hrest
  | @group sep o c content s hp hcontent _ _ ih =>
    obtain ⟨rfl, rfl⟩ : o = ascii '(' ∧ c = ascii ')' := by
      simpa [Brackets.pairs, Brackets.single] using hp
    have hread := readBalanced?_nested (by decide) hcontent (s ++ t)
    have hrest := ih (begun ++ ascii '(' :: (content ++ [ascii ')'])) hsep
    rw [List.cons_append, List.append_assoc, List.cons_append, scan, bodyPieces_parens hread,
      statementsFrom]
    simpa [scan] using hrest

/-- A semicolon ends a statement. -/
lemma scan_semicolon (begun t : Text) :
    scan begun (ascii ';' :: t) = begun :: scan [] t := by
  rw [scan, bodyPieces_byte (by decide) (by decide) (by decide), statementsFrom, if_pos rfl, scan]

/-- A block ends a statement without an equals sign, and both are dropped. -/
lemma scan_block {begun s : Text} (hbegun : topLevelIndex? (ascii '=') begun = none)
    (hs : Balanced .braces s) (t : Text) :
    scan begun (ascii '\x7b' :: (s ++ ascii '\x7d' :: t)) = scan [] t := by
  rw [scan, bodyPieces_braces (readBalanced?_nested (by decide) hs t), statementsFrom, hbegun]
  rfl

/-! ### Methods -/

/-- The text can stand between the parentheses of a method: its brackets match, and it does not
declare a class. -/
def IsParameters (s : Text) : Prop := Balanced .grouping s ∧ lacksWord "class" s

/-- A method or, without a result, a constructor. -/
structure MethodSyntax (L : Lexicon) where
  /-- The modifiers. -/
  modifiers : List {w : Text // w ∈ Java.modifiers}
  /-- The type of the result. -/
  result : Option (TypeSyntax L)
  /-- The name. -/
  name : L.Name
  /-- The text between the parentheses. -/
  parameters : {s : Text // IsParameters s}

namespace MethodSyntax

variable {L : Lexicon} (m : MethodSyntax L)

/-- The type of the result as it is written, with a space behind it. -/
def resultText : Text := m.result.elim [] fun t => t.text ++ " "

/-- The method behind its modifiers. -/
def declaration : Text :=
  m.resultText ++ m.name.1 ++ ascii '(' :: (m.parameters.1 ++ [ascii ')'])

/-- The method as it is written, up to its block. -/
def text : Text := modifierTexts m.modifiers ++ m.declaration

/-- What stands before the name of a method is coded and holds no equals sign. -/
lemma coded_resultText : Coded m.resultText ∧ ascii '=' ∉ m.resultText := by
  unfold resultText
  cases m.result with
  | none => exact ⟨.nil, by simp⟩
  | some t =>
    refine ⟨t.isTypeText.coded.append (.of_all (by decide)), fun h => ?_⟩
    rcases List.mem_append.mp h with h | h
    · exact absurd (List.all_eq_true.mp t.isTypeText.bytes _ h) (by decide)
    · rw [utf8_space] at h
      exact absurd h (by decide)

/-- The name of a method is coded and holds no equals sign. -/
lemma coded_name : Coded m.name.1 ∧ ascii '=' ∉ m.name.1 := by
  refine ⟨coded_of_isName m.name.2, fun h => ?_⟩
  have hall := List.all_eq_true.mp (all_isWord_of_isName m.name.2)
  exact absurd (hall _ h) (by decide)

/-- The parentheses of a method match in every family of brackets that has parentheses. -/
lemma nested_parameters {brackets : Brackets} {sep : UInt8 → Bool}
    (hpart : brackets.isPartOf .grouping) (hpair : (ascii '(', ascii ')') ∈ brackets.pairs) :
    Nested brackets sep (ascii '(' :: (m.parameters.1 ++ [ascii ')'])) :=
  .enclose hpair (m.parameters.2.1.part hpart)

/-- A method has no equals sign outside of its parentheses. -/
lemma nested_declaration : Nested .grouping (· == ascii '=') m.declaration := by
  have hplain : ∀ {s : Text}, Coded s ∧ ascii '=' ∉ s → Nested .grouping (· == ascii '=') s := by
    rintro s ⟨hcoded, hmem⟩
    refine (hcoded _ _ suits_grouping).of_forall_mem fun b hb => ?_
    have hne : b ≠ ascii '=' := fun h => hmem (h ▸ hb)
    simpa using hne
  exact ((hplain m.coded_resultText).append (hplain m.coded_name)).append
    (m.nested_parameters (by decide) (by decide))

/-- A method starts with a word that is no modifier. -/
lemma identAt_declaration (hL : Speaks L) :
    m.declaration.head?.any isIdentStart ∧ identAt m.declaration ∉ Java.modifiers := by
  suffices h : m.declaration.head?.any isIdentStart ∧ L.isName (identAt m.declaration) from
    ⟨h.1, fun hmem => not_mem_of_isName h.2 (hL.modifiers _ hmem)⟩
  unfold declaration resultText
  cases m.result with
  | none =>
    have hident := isIdent_of_isName m.name.2
    have hhead := head?_isIdentStart_of_isIdent hident
    rw [Option.elim_none, List.nil_append, identAt_append hident (by simp; decide)]
    exact ⟨head?_append_any hhead _, m.name.2⟩
  | some t =>
    simp only [Option.elim_some, List.append_assoc]
    exact ⟨head?_append_any t.isTypeText.starts _, t.isName_identAt (by simp [utf8_space]; decide)⟩

/-- A name directly before an opening parenthesis is found behind any text. -/
lemma hasCall_append {w : Text} (hw : isIdent w) (s t : Text) :
    hasCall (s ++ (w ++ ascii '(' :: t)) := by
  have hpart : isIdentPart (ascii '(') = false := by decide
  have hgap : isGap (ascii '(') = false := by decide
  induction s with
  | nil =>
    cases w with
    | nil => simp [isIdent] at hw
    | cons b w =>
      simp only [isIdent, Bool.and_eq_true, List.all_eq_true] at hw
      have hdrop : (w ++ ascii '(' :: t).dropWhile isIdentPart = ascii '(' :: t := by
        rw [List.dropWhile_append_of_pos hw.2, List.dropWhile_cons, hpart]
        rfl
      simp [hasCall, callAt, hw.1, hdrop, skipGaps, hgap]
  | cons b s ih => simp [hasCall, ih]

/-- A method declares no field. -/
lemma statementFields_text (hL : Speaks L) : statementFields (ascii ' ' :: m.text) = [] := by
  obtain ⟨hhead, hmodifier⟩ := m.identAt_declaration hL
  have htrim : trimEnd (ascii ' ' :: m.text) = ascii ' ' :: m.text := by
    have htext : ascii ' ' :: m.text = ascii ' ' :: (modifierTexts m.modifiers ++ (m.resultText ++
        m.name.1 ++ ascii '(' :: m.parameters.1)) ++ [ascii ')'] := by
      simp [text, declaration]
    rw [htext]
    exact trimEnd_ink (by decide) _
  have hmarks : leadingMarks? spaces (· ∈ Java.modifiers) (ascii ' ' :: m.text) =
      some ([], m.declaration) := by
    rw [leadingMarks?_space, text]
    exact leadingMarks?_declaration (L := L) areWords_modifiers [] m.modifiers hhead hmodifier
  have hcall : hasCall (beforeTopLevel (ascii '=') m.declaration) := by
    rw [beforeTopLevel_nested m.nested_declaration, declaration, List.append_assoc]
    exact hasCall_append (isIdent_of_isName m.name.2) _ _
  simp [statementFields, htrim, hmarks, hcall]

/-- A method holds no header of a class. -/
lemma free_text (hL : Speaks L) : Free "class" m.text := by
  have hk := hL.avoids.keyword
  have hresult : Free "class" (m.resultText ++ m.name.1) := by
    unfold resultText
    cases m.result with
    | none => exact free_of_isName hL.avoids.toReserves m.name.2
    | some t =>
      exact (t.isTypeText.free _ hL.avoids.toReserves).separated hk (by decide)
        (free_of_isName hL.avoids.toReserves m.name.2)
  have hparameters : Free "class" (m.parameters.1 ++ ")") :=
    (Free.of_lacksWord hk m.parameters.2.2).append_sep hk (by decide)
  have hdeclaration := hresult.separated hk (s := "(") (by decide) hparameters
  have h := free_modifierTexts areWords_modifiers hk (by decide) m.modifiers hdeclaration
  simpa [text, declaration, utf8_openParen, utf8_closeParen] using h

end MethodSyntax

/-! ### Members -/

/-- A member of a class. -/
inductive Member (L : Lexicon) where
  /-- A statement that declares fields. -/
  | field (f : FieldSyntax L)
  /-- A method or a constructor with its block. -/
  | method (m : MethodSyntax L) (body : {s : Text // IsBlock s})
  /-- An initializer of the class or of its objects. -/
  | initializer (isStatic : Bool) (body : {s : Text // IsBlock s})
  /-- A method without a block. -/
  | abstractMethod (m : MethodSyntax L)

namespace Member

variable {L : Lexicon}

/-- The member as it is written. -/
def text : Member L → Text
  | field f => f.text ++ ";"
  | method m body => m.text ++ " " ++ blockText body.1
  | initializer isStatic body => onlyIf isStatic "static " ++ blockText body.1
  | abstractMethod m => m.text ++ ";"

/-- The fields that the member declares. -/
def fields : Member L → List Field
  | field f => f.fields
  | _ => []

end Member

section Member

variable {L : Lexicon}

/-- A statement that declares fields is coded, the commas between its declarators apart. -/
lemma FieldSyntax.codedList_text (f : FieldSyntax L) : CodedList f.text := by
  have hspace : Coded (utf8 " ") := .of_all (by decide)
  have hdeclaration : CodedList f.declaration := by
    rw [f.declaration_eq_join]
    refine .join (List.forall_mem_cons.mpr ⟨?_, fun q hq => ?_⟩)
    · exact (f.type.isTypeText.coded.append hspace).append f.first.coded
    · obtain ⟨d, -, rfl⟩ := List.mem_map.mp hq
      exact d.coded
  exact (MarkSyntax.coded_texts f.marks).list.append
    ((coded_modifierTexts areWords_modifiers f.modifiers).list.append hdeclaration)

/-- A statement that declares fields holds no keyword that is no modifier. -/
lemma FieldSyntax.free_text {k : Text} (hk : L.Avoids k) (hmem : k ∉ Java.modifiers)
    (f : FieldSyntax L) : Free k f.text := by
  have hdeclarators : Free k (join ", " ((f.first :: f.more).map Declarator.text)) := by
    refine .join_sep hk.keyword (fun q hq => ?_) (by decide)
    obtain ⟨d, -, rfl⟩ := List.mem_map.mp hq
    exact d.free hk.toReserves
  have hdeclaration : Free k f.declaration :=
    (f.type.isTypeText.free _ hk.toReserves).separated hk.keyword (by decide) hdeclarators
  exact MarkSyntax.free_texts hk f.marks
    (free_modifierTexts areWords_modifiers hk.keyword hmem f.modifiers hdeclaration)

/-- A statement with a space in front of it is begun and not ended. -/
lemma FieldSyntax.scan_text (f : FieldSyntax L) (t : Text) :
    scan [] (ascii ' ' :: (f.text ++ t)) = scan (ascii ' ' :: f.text) t := by
  have hcomma : ∀ b, isEnd b = true → (isEnd b && b != ascii ',') = true := fun b hb => by
    simp [hb, ne_of_class hb (show isEnd (ascii ',') = false by decide)]
  have hnested : Nested (.single (ascii '(') (ascii ')')) isEnd (ascii ' ' :: f.text) :=
    .byte (by decide) (by decide) ((f.codedList_text _ _ suits_semicolon).weaken hcomma)
  simpa using scan_nested hnested [] t

/-- A method with a space in front of it is begun and not ended. -/
lemma MethodSyntax.scan_text (m : MethodSyntax L) (t : Text) :
    scan [] (ascii ' ' :: (m.text ++ t)) = scan (ascii ' ' :: m.text) t := by
  have hmodifiers := coded_modifierTexts areWords_modifiers m.modifiers _ _ suits_semicolon
  have hname := (m.coded_resultText.1.append m.coded_name.1) _ _ suits_semicolon
  have hnested : Nested (.single (ascii '(') (ascii ')')) isEnd (ascii ' ' :: m.text) :=
    .byte (by decide) (by decide) (hmodifiers.append
      (hname.append (m.nested_parameters (by decide) (by decide))))
  simpa using scan_nested hnested [] t

/-- A method has no equals sign outside of its parentheses, its modifiers included. -/
lemma MethodSyntax.nested_text (m : MethodSyntax L) :
    Nested .grouping (· == ascii '=') m.text := by
  have hmodifiers := coded_modifierTexts areWords_modifiers m.modifiers _ _ suits_grouping
  refine Nested.append (hmodifiers.of_forall_mem fun b hb => ?_) m.nested_declaration
  rcases isWord_of_mem_modifierTexts areWords_modifiers hb with hb | rfl
  · exact beq_false_of_ne (ne_of_class hb (by decide))
  · decide

/-- The braces of a method match. -/
lemma MethodSyntax.balanced_text (m : MethodSyntax L) : Balanced .braces m.text := by
  have hmodifiers := coded_modifierTexts areWords_modifiers m.modifiers _ _ suits_braces
  have hname := (m.coded_resultText.1.append m.coded_name.1) _ _ suits_braces
  have hparameters : Balanced .braces m.parameters.1 := m.parameters.2.1.part (by decide)
  have hclose : Balanced .braces [ascii ')'] := .byte (by decide) rfl .nil
  exact hmodifiers.append (hname.append (.byte (by decide) rfl (hparameters.append hclose)))

/-- The braces of a member match. -/
lemma Member.balanced_text (m : Member L) : Balanced .braces m.text := by
  have hblock : ∀ body : {s : Text // IsBlock s}, Balanced .braces (blockText body.1) :=
    fun body => .enclose (by decide) body.2.1
  have hend : Balanced .braces (utf8 ";") := .of_plain (by decide)
  have hspace : Balanced .braces (utf8 " ") := .of_plain (by decide)
  cases m with
  | field f => exact (f.codedList_text _ _ suits_braces).balanced.append hend
  | method m body => exact (m.balanced_text.append hspace).append (hblock body)
  | initializer isStatic body =>
    cases isStatic with
    | false => exact hblock body
    | true => exact Nested.append (.of_plain (by decide)) (hblock body)
  | abstractMethod m => exact m.balanced_text.append hend

/-- A member holds no header of a class. -/
lemma Member.free_text (hL : Speaks L) (m : Member L) : Free "class" m.text := by
  have hk := hL.avoids.keyword
  cases m with
  | field f => exact (f.free_text hL.avoids (by decide)).append_sep hk (by decide)
  | method m body => exact (m.free_text hL).separated hk (by decide) (free_blockText hk body.2)
  | initializer isStatic body =>
    cases isStatic with
    | false => exact free_blockText hk body.2
    | true =>
      have hstatic : Free "class" (utf8 "static" ++ utf8 " " ++ blockText body.1) :=
        (Free.of_word hk (by decide) (by decide)).separated hk (by decide)
          (free_blockText hk body.2)
      exact hstatic
  | abstractMethod m => exact (m.free_text hL).append_sep hk (by decide)

/-- The fields of a printed member come before those of what follows it. -/
lemma Member.scan_text (hL : Speaks L) (m : Member L) (t : Text) :
    (scan [] (ascii ' ' :: (m.text ++ t))).flatMap statementFields =
      m.fields ++ (scan [] t).flatMap statementFields := by
  have hsemicolon : utf8 ";" = [ascii ';'] := by decide
  cases m with
  | field f =>
    rw [text, List.append_assoc, hsemicolon, List.singleton_append, f.scan_text, scan_semicolon,
      List.flatMap_cons, f.statementFields_text hL, fields]
  | method m body =>
    have hbegun : Nested .grouping (· == ascii '=') (ascii ' ' :: (m.text ++ [ascii ' '])) :=
      .byte (by decide) (by decide)
        (m.nested_text.append (.byte (by decide) (by decide) .nil))
    have htext : ascii ' ' :: ((method m body).text ++ t) = ascii ' ' :: (m.text ++
        ascii ' ' :: ascii '\x7b' :: (body.1 ++ ascii '\x7d' :: t)) := by
      simp [text, blockText, utf8_space]
    rw [htext, m.scan_text, scan_byte (by decide) (by decide) (by decide), List.cons_append,
      scan_block (topLevelIndex?_nested hbegun) body.2.1]
    rfl
  | initializer isStatic body =>
    have hbegun : ∀ begun : Text, Nested .grouping (· == ascii '=') begun →
        Nested (.single (ascii '(') (ascii ')')) isEnd begun →
        scan [] (begun ++ (blockText body.1 ++ t)) = scan [] t := by
      intro begun hgrouping hsingle
      rw [scan_nested hsingle, blockText, List.cons_append, List.append_assoc,
        List.singleton_append, List.nil_append,
        scan_block (topLevelIndex?_nested hgrouping) body.2.1]
    cases isStatic with
    | false =>
      have h := hbegun [ascii ' '] (.of_plain (by decide))
        (.of_plain (by decide))
      exact congrArg (List.flatMap statementFields) h
    | true =>
      have h := hbegun (utf8 " static ") (.of_plain (by decide))
        (.of_plain (by decide))
      exact congrArg (List.flatMap statementFields) h
  | abstractMethod m =>
    rw [text, List.append_assoc, hsemicolon, List.singleton_append, m.scan_text, scan_semicolon,
      List.flatMap_cons, m.statementFields_text hL]
    rfl

/-- The fields of printed members are those that they declare. -/
lemma bodyFields_members (hL : Speaks L) (members : List (Member L)) :
    bodyFields (members.flatMap (fun m => ascii ' ' :: m.text) ++ [ascii ' ']) =
      members.flatMap Member.fields := by
  change (scan [] _).flatMap statementFields = _
  induction members with
  | nil =>
    rw [List.flatMap_nil, List.nil_append, scan_byte (by decide) (by decide) (by decide)]
    rfl
  | cons m members ih =>
    rw [List.flatMap_cons, List.append_assoc, List.cons_append, m.scan_text hL, ih,
      List.flatMap_cons]

end Member

/-! ### Classes -/

/-- A class. -/
structure ClassSyntax (L : Lexicon) where
  /-- The name. -/
  name : L.Name
  /-- The members in order. -/
  members : List (Member L)

namespace ClassSyntax

variable {L : Lexicon} (c : ClassSyntax L)

/-- The content of the braces of a class. -/
def bodyText : Text := c.members.flatMap (fun m => ascii ' ' :: m.text) ++ [ascii ' ']

/-- The class as it is written. -/
def text : Text := "class " ++ c.name.1 ++ " " ++ blockText c.bodyText

/-- The declaration that the class stands for. -/
def decl : ClassDecl := ⟨c.name.1, keepFirst (c.members.flatMap Member.fields)⟩

/-- The braces of a body match. -/
lemma balanced_bodyText : Balanced .braces c.bodyText := by
  refine Nested.append ?_ (.byte (by decide) rfl .nil)
  induction c.members with
  | nil => exact .nil
  | cons m ms ih => exact .byte (by decide) rfl (m.balanced_text.append ih)

/-- What stands behind the name of a class in a source. -/
def tail : Text := " " ++ blockText c.bodyText ++ "\n"

/-- The body of a class is read as a whole. -/
lemma body?_tail (t : Text) : body? (c.tail ++ t) = some c.bodyText := by
  have htext : c.tail ++ t = ascii ' ' :: (blockText c.bodyText ++ ("\n" ++ t)) := by
    simp [tail, utf8_space]
  rw [htext, body?_blockText c.balanced_bodyText]

/-- The body of a class holds no header of another class. -/
lemma free_tail (hL : Speaks L) : Free "class" c.tail := by
  have hk := hL.avoids.keyword
  have hspace : isSep [ascii ' '] := by decide
  have hmembers : ∀ ms : List (Member L),
      Free "class" (ms.flatMap (fun m => ascii ' ' :: m.text) ++ [ascii ' ']) := by
    intro ms
    induction ms with
    | nil => exact .of_sep hk hspace
    | cons m ms ih =>
      have hhead : apart m.text.getLast?
          (ms.flatMap (fun m => ascii ' ' :: m.text) ++ [ascii ' ']).head? := by
        cases ms with
        | nil => exact apart_sep hspace _ []
        | cons m' ms => exact apart_sep hspace _ _
      have h := Free.sep_append hk hspace ((m.free_text hL).append ih hhead)
      simpa using h
  have hopen : utf8 " \x7b" = utf8 " " ++ [ascii '\x7b'] := by decide
  have hclose : utf8 "\x7d\n" = ascii '\x7d' :: utf8 "\n" := by decide
  have h := Free.sep_append hk (s := " \x7b") (by decide)
    ((hmembers c.members).append_sep hk (s := "\x7d\n") (by decide))
  simpa [tail, blockText, bodyText, hopen, hclose] using h

end ClassSyntax

/-- The source of classes, each on a line of its own. -/
def source {L : Lexicon} (cs : List (ClassSyntax L)) : Text := cs.flatMap fun c => c.text ++ "\n"

section Source

variable {L : Lexicon}

/-- The text before a header of a printed class: nothing, or the end of another class. -/
def IsBetween (before : Text) : Prop := before = [] ∨ ∃ r, before = ascii '\n' :: ascii '\x7d' :: r

/-- Between printed classes no word stands before a header. -/
lemma IsBetween.clear {before : Text} (h : IsBetween before) :
    before.head?.any isWord = false ∧ isMember before = false ∧ wordBefore before = [] := by
  rcases h with rfl | ⟨r, rfl⟩
  · decide
  · have hword : isWord (ascii '\n') = false := by decide
    have hblank : isBlank (ascii '\n') = false := by decide
    have hdot : (ascii '\n' == ascii '.' || ascii '\n' == ascii ':') = false := by decide
    have hclose : isIdentPart (ascii '\x7d') = false := by decide
    have hpassed : (isBlank (ascii '\x7d') || ascii '\x7d' == ascii '\n' ||
        ascii '\x7d' == ascii '\r') = false := by decide
    exact ⟨by simp [hword], by simp [isMember, hblank, hdot], by simp [wordBefore, hpassed, hclose]⟩

/-- The header of a printed class is found with its name, and its own body follows it, with whatever
behind it. -/
lemma occurrencesFrom_class (hL : Speaks L) {start part : UInt8 → Bool}
    (hnames : ReadsNames start part) (c : ClassSyntax L) {before : Text}
    (hbefore : IsBetween before) (t : Text) :
    ∃ o : Occurrence Text, o.before = before ∧ o.value = c.name.1 ∧ o.after = c.tail ++ t ∧
      occurrencesFrom (header? ["class"] start part) before 0 (c.text ++ "\n" ++ t) =
        o :: occurrencesFrom (header? ["class"] start part) ((c.text ++ "\n").reverse ++ before) 0
          t := by
  have hword : utf8 "class " = utf8 "class" ++ [ascii ' '] := by decide
  have htail : c.tail.head?.any (!part ·) := by
    simp [ClassSyntax.tail, utf8_space, hnames.space]
  have hend : c.tail.getLast?.any isWord = false := by
    simp only [ClassSyntax.tail, utf8_newline, List.getLast?_append, List.getLast?_singleton,
      Option.some_or]
    decide
  have htext : c.text ++ utf8 "\n" = utf8 "class" ++ ascii ' ' :: c.name.1 ++ c.tail := by
    simp [ClassSyntax.text, ClassSyntax.tail, hword]
  have hfound := occurrencesFrom_header hL.avoids.keyword hnames.not_gap hnames.word
    hbefore.clear.1 .nil rfl (hnames.head? c.name.2) (hnames.tail c.name.2) (c.free_tail hL) htail
    hend (t := t)
  simp only [List.nil_append, List.reverse_nil] at hfound
  refine ⟨_, rfl, rfl, ?_, by rw [htext, hfound]⟩
  rw [Occurrence.after, List.append_assoc, List.drop_left]

/-- What is read at the headers of printed classes comes in the order of the classes, if it is known
for a header behind the end of a class and before its own body. -/
lemma filterMap_occurrences_source (hL : Speaks L) {start part : UInt8 → Bool}
    (hnames : ReadsNames start part) {read : Occurrence Text → Option ClassDecl}
    {decl : ClassSyntax L → ClassDecl}
    (hread : ∀ (c : ClassSyntax L) (o : Occurrence Text) (t : Text), IsBetween o.before →
      o.value = c.name.1 → o.after = c.tail ++ t → read o = some (decl c))
    (cs : List (ClassSyntax L)) :
    (occurrences (header? ["class"] start part) (source cs)).filterMap read = cs.map decl := by
  suffices h : ∀ before, IsBetween before →
      (occurrencesFrom (header? ["class"] start part) before 0 (source cs)).filterMap read =
        cs.map decl from h [] (Or.inl rfl)
  induction cs with
  | nil => intro before _; rfl
  | cons c cs ih =>
    intro before hbefore
    have hbetween : IsBetween ((c.text ++ "\n").reverse ++ before) := by
      refine Or.inr ⟨(utf8 "class " ++ c.name.1 ++ utf8 " " ++
        ascii '\x7b' :: c.bodyText).reverse ++ before, ?_⟩
      simp [ClassSyntax.text, blockText, utf8_newline]
    obtain ⟨o, rfl, hvalue, hafter, hfound⟩ := occurrencesFrom_class hL hnames c hbefore (source cs)
    rw [source, List.flatMap_cons]
    change (occurrencesFrom _ o.before 0 (c.text ++ "\n" ++ source cs)).filterMap read = _
    rw [hfound, List.filterMap_cons_some (hread c o _ hbefore hvalue hafter), List.map_cons,
      ih _ hbetween]

/-- Printed classes are found in their order. -/
lemma classes_source (hL : Speaks L) (cs : List (ClassSyntax L)) :
    classes (source cs) = coalesce (cs.map ClassSyntax.decl) := by
  refine congrArg coalesce (filterMap_occurrences_source hL ⟨by decide +kernel, by decide +kernel,
    by decide +kernel, by decide⟩ (fun c o t hbefore hvalue hafter => ?_) cs)
  obtain ⟨-, hmember, hword⟩ := hbefore.clear
  have henum : ([] == utf8 "enum") = false := by decide
  simp only [classAt?, hmember, hword, henum, hafter, c.body?_tail, hvalue]
  simp [ClassSyntax.decl, ClassSyntax.bodyText, bodyFields_members hL, dedupFields_eq_keepFirst]

end Source

/-! ### Reading inverts printing -/

/-- The names and literals of the dialect: the words of declarations are no names, and the keyword
of classes stands in no literal. -/
def lexicon : Lexicon where
  reserved := modifiers ++ typeWords
  accepts := lacksWord "class"

/-- The names of the dialect are none of its words. -/
lemma speaks_lexicon : Speaks lexicon where
  modifiers w hw := List.mem_append_left _ hw
  typeWords w hw := List.mem_append_right _ hw
  avoids := Lexicon.avoids_of_accepts ⟨by decide, by decide⟩ (by decide) fun _ hs => hs

/-- Classes of different names are read back from their source: in their order, with the fields that
their members declare, the first one of each key. -/
theorem classes_source_of_nodup (cs : List (ClassSyntax lexicon))
    (h : (cs.map fun c => c.name.1).Nodup) : classes (source cs) = cs.map ClassSyntax.decl := by
  have hnames : (cs.map ClassSyntax.decl).map ClassDecl.name = cs.map fun c => c.name.1 := by
    simp [ClassSyntax.decl]
  rw [classes_source speaks_lexicon, coalesce_of_nodup (by rw [hnames]; exact h), List.map_map]
  refine List.map_congr_left fun c _ => ?_
  simp [ClassSyntax.decl, keepFirst_keepFirst]

/-- A class with a constructor, a statement with two declarators, and a field that repeats a key. -/
theorem classes_source_account :
    let size : MarkSyntax lexicon := ⟨none, ⟨[], ⟨"Size", by decide⟩⟩,
      some [⟨some ⟨"max", by decide⟩, .number false ⟨"20", by decide⟩⟩]⟩
    let owner : FieldSyntax lexicon := ⟨[size], [⟨"private", by decide⟩],
      .name ⟨[], ⟨"String", by decide⟩⟩, ⟨⟨"owner", by decide⟩, 0⟩, [⟨⟨"notes", by decide⟩, 1⟩]⟩
    let again : FieldSyntax lexicon := ⟨[], [], .generic ⟨[], ⟨"Optional", by decide⟩⟩
      (.last (.name ⟨[], ⟨"Long", by decide⟩⟩)), ⟨⟨"owner", by decide⟩, 0⟩, []⟩
    let constructor : MethodSyntax lexicon := ⟨[], none, ⟨"Account", by decide⟩,
      ⟨"int id", .of_plain (by decide), by decide⟩⟩
    let account : ClassSyntax lexicon := ⟨⟨"Account", by decide⟩, [.method constructor
      ⟨" this.id = id; ", .of_plain (by decide), by decide⟩, .field owner, .field again]⟩
    let size' : Constraints :=
      { size := some ⟨none, some 20⟩, raw := [utf8 "@Size(max = 20)"] }
    source [account] = utf8 "class Account \x7b Account(int id) \x7b this.id = id; \x7d " ++
      utf8 "@Size(max = 20) private String owner, notes[]; Optional<Long> owner; \x7d\n" ∧
    ([account].map fun c => c.name.1).Nodup ∧
    classes (source [account]) = [⟨"Account",
      [⟨"owner", "owner", "String", false, size'⟩, ⟨"notes", "notes", "String[]", false, size'⟩]⟩] := by
  intro size owner again constructor account size'
  have hnodup : ([account].map fun c => c.name.1).Nodup := by simp
  refine ⟨by decide +kernel, hnodup, ?_⟩
  rw [classes_source_of_nodup [account] hnodup]
  decide +kernel

end DtoSchema.Declaration.Java
