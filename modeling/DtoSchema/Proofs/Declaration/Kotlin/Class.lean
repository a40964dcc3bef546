import DtoSchema.Proofs.Declaration.Header
import DtoSchema.Proofs.Declaration.Kotlin.Body
import DtoSchema.Proofs.Declaration.Merging

/-!
# Printed classes of the Kotlin dialect are read back

A class has a primary constructor, a body, both or neither; what is left out is not printed.  So the
reader has to see that a class without a body ends before the next one starts: `IsNext` says what may
follow a printed class, and `fieldsAfter_tail` finds the fields of all four shapes in front of it.

The word before a header decides whether it is one of a class, and it may be the name of the class
printed before; `IsBetween` is the invariant of the text that was passed.  `classes_source` follows
the classes of a source one by one.
-/

namespace DtoSchema.Declaration.Kotlin

open Text Source

variable {L : Lexicon}

/-! ### What follows a class -/

/-- Nothing follows, or another class does. -/
def IsNext (t : Text) : Prop :=
  t = [] ∨ ∃ (w r : Text), (w = "data" ∨ w = "class") ∧ t = w ++ ascii ' ' :: r

/-- The first byte of the next class, and its first word. -/
lemma IsNext.eq_cons {t : Text} (h : IsNext t) :
    t = [] ∨ ∃ b r, t = b :: r ∧ isIdentStart b ∧
      (identAt t = "data" ∨ identAt t = "class") := by
  have hspace : (ascii ' ' :: ([] : Text)).head?.any isIdentPart = false := by decide
  rcases h with rfl | ⟨w, r, hw, rfl⟩
  · exact Or.inl rfl
  · refine Or.inr ?_
    have hident : identAt (w ++ ascii ' ' :: r) = w := by
      refine identAt_append ?_ (by simpa using hspace)
      rcases hw with rfl | rfl <;> decide
    rw [hident]
    rcases hw with rfl | rfl
    · exact ⟨ascii 'd', utf8 "ata" ++ ascii ' ' :: r, rfl, by decide, Or.inl rfl⟩
    · exact ⟨ascii 'c', utf8 "lass" ++ ascii ' ' :: r, rfl, by decide, Or.inr rfl⟩

/-- A class without braces has no body if another class or nothing follows it. -/
lemma body?_next {t : Text} (h : IsNext t) : body? (ascii '\n' :: t) = none := by
  have hstart : bodyStart? (ascii '\n' :: t) = none := by
    rw [bodyStart?, bodyStartFrom?, if_neg (by decide), if_neg (by decide), if_neg (by decide),
      if_neg (by decide)]
    simp only [identAt_eq_nil (show isIdentStart (ascii '\n') = false by decide)]
    rw [if_neg (by decide), List.length_nil]
    rcases h.eq_cons with rfl | ⟨b, r, rfl, hb, hword⟩
    · rfl
    · have hmem : identAt (b :: r) ∈ declarationWords := by
        rcases hword with hword | hword <;> rw [hword] <;> decide
      exact bodyStart?_eq_none hb hmem
  rw [body?, hstart, Option.bind_none]

/-! ### The primary constructor -/

/-- The gaps between the parts of a header are blank. -/
lemma areBlank_gaps : areBlank gaps := by decide

/-- The group behind a name is that of the primary constructor. -/
lemma primaryConstructor?_group {params : Text}
    (hbalanced : Balanced (.single (ascii '(') (ascii ')')) params) (t : Text) :
    primaryConstructor? (ascii '(' :: (params ++ ascii ')' :: t)) = some (params, t) := by
  have hgap : isGap (ascii '(') = false := by decide
  have hne : ascii '(' ≠ ascii '<' := by decide
  have hafter : ∀ s, afterTypeParameters? (ascii '(' :: s) = some (ascii '(' :: s) := by
    intro s
    simp [afterTypeParameters?, skipGaps, hgap, hne]
  have hmarks : ∀ s, leadingMarks? gaps (fun w => w ∈ modifiers || w == utf8 "constructor")
      (ascii '(' :: s) = some ([], ascii '(' :: s) := by
    intro s
    refine leadingMarks?_stop areBlank_gaps (by decide) (by decide) ?_
    rw [identAt_eq_nil (by decide)]
    decide
  rw [primaryConstructor?, hafter, Option.bind_eq_bind, Option.bind_some, hmarks]
  exact readBalanced?_nested (by decide) hbalanced t

/-- The parameters behind a name are those of the primary constructor. -/
lemma primaryConstructor?_params (params : List (Param L)) (t : Text) :
    primaryConstructor? (paramsText params ++ t) =
      some (join ", " (params.map Param.text), t) := by
  have htext : paramsText params ++ t =
      ascii '(' :: (join ", " (params.map Param.text) ++ ascii ')' :: t) := by
    simp [paramsText]
  rw [htext]
  exact primaryConstructor?_group (codedList_params params _ _ suits_semicolon).balanced t

/-- There is no primary constructor where something else follows. -/
lemma primaryConstructor?_eq_none {s r : Text} {b : UInt8} (hskip : skipGaps s = b :: r)
    (hink : isInk b) (hangle : b ≠ ascii '<') (hat : b ≠ ascii '@') (hopen : b ≠ ascii '(')
    (hword : identAt (b :: r) ∉ modifiers) (hne : identAt (b :: r) ≠ "constructor") :
    primaryConstructor? s = none := by
  have hafter : afterTypeParameters? s = some (b :: r) := by
    simp [afterTypeParameters?, hskip, hangle]
  have hmarks : leadingMarks? gaps (fun w => w ∈ modifiers || w == utf8 "constructor") (b :: r) =
      some ([], b :: r) := leadingMarks?_stop areBlank_gaps hink hat (by simp [hword, hne])
  rw [primaryConstructor?, hafter, Option.bind_eq_bind, Option.bind_some, hmarks]
  simp [readBalanced?, hopen]

/-- There is no primary constructor in front of a body. -/
lemma primaryConstructor?_body (t : Text) :
    primaryConstructor? (ascii ' ' :: ascii '\x7b' :: t) = none := by
  have hgap : isGap (ascii ' ') = true := by decide
  have hopen : isGap (ascii '\x7b') = false := by decide
  have hident : identAt (ascii '\x7b' :: t) = [] := identAt_eq_nil (by decide) t
  refine primaryConstructor?_eq_none (b := ascii '\x7b') (r := t) (by simp [skipGaps, hgap, hopen])
    (by decide) (by decide) (by decide) (by decide) ?_ ?_
  · rw [hident]
    decide
  · rw [hident]
    decide

/-- There is no primary constructor in front of the next class. -/
lemma primaryConstructor?_next {t : Text} (h : IsNext t) :
    primaryConstructor? (ascii '\n' :: t) = none := by
  have hline : isGap (ascii '\n') = true := by decide
  rcases h.eq_cons with rfl | ⟨b, r, rfl, hb, hword⟩
  · decide
  · have hink := isInk_of_isIdentStart hb
    refine primaryConstructor?_eq_none (b := b) (r := r)
      (by simp [skipGaps, hline, isGap_of_isInk hink]) hink (ne_of_class hb (by decide))
      (ne_of_class hb (by decide)) (ne_of_class hb (by decide)) ?_ ?_
    · rcases hword with hword | hword <;> rw [hword] <;> decide
    · rcases hword with hword | hword <;> rw [hword] <;> decide

/-! ### Classes -/

/-- A class. -/
structure ClassSyntax (L : Lexicon) where
  /-- The class is declared as one that holds data. -/
  isData : Bool
  /-- The name. -/
  name : L.Name
  /-- The parameters of the primary constructor, if there is one. -/
  params : Option (List (Param L))
  /-- The members in order, if there is a body. -/
  members : Option (List (Member L))

namespace ClassSyntax

variable (c : ClassSyntax L)

/-- What stands before the keyword. -/
def lead : Text := onlyIf c.isData "data "

/-- The primary constructor as it is written. -/
def constructorText : Text := c.params.elim [] paramsText

/-- The body as it is written. -/
def blockText : Text := c.members.elim [] fun ms => " " ++ Declaration.blockText (bodyText ms)

/-- The class as it is written. -/
def text : Text := c.lead ++ "class " ++ c.name.1 ++ c.constructorText ++ c.blockText

/-- What stands behind the name of a class in a source. -/
def tail : Text := c.constructorText ++ c.blockText ++ "\n"

/-- The fields of the class: the properties among its parameters and those of its body. -/
def fields : List Field :=
  (c.params.getD []).filterMap Param.field? ++ (c.members.getD []).flatMap Member.fields

/-- The declaration that the class stands for. -/
def decl : ClassDecl := ⟨c.name.1, keepFirst c.fields⟩

/-- The types of all properties have a clear end. -/
def IsClear : Prop :=
  (∀ q ∈ c.params.getD [], q.IsClear) ∧ ∀ m ∈ c.members.getD [], m.IsClear

end ClassSyntax

/-- The fields that are read behind the name of a class. -/
def fieldsAfter (s : Text) : List Field :=
  let (params, rest) := (primaryConstructor? s).getD ([], s)
  parameterFields params ++ ((body? rest).map bodyFields).getD []

/-- A header that is neither used as a member nor that of an enumeration or an annotation introduces
a class with the fields behind its name. -/
lemma classAt?_eq_some {o : Occurrence Text} (hmember : isMember o.before = false)
    (henum : wordBefore o.before ≠ "enum") (hmark : wordBefore o.before ≠ "annotation") :
    classAt? o = some ⟨o.value, keepFirst (fieldsAfter o.after)⟩ := by
  simp only [classAt?, hmember, beq_false_of_ne henum, beq_false_of_ne hmark]
  simp [fieldsAfter, dedupFields_eq_keepFirst]

/-- The fields of a body without a primary constructor are those of the body. -/
lemma fieldsAfter_body {body : Text} (h : Balanced .braces body) (t : Text) :
    fieldsAfter (ascii ' ' :: (Declaration.blockText body ++ t)) = bodyFields body := by
  have hnone : primaryConstructor? (ascii ' ' :: (Declaration.blockText body ++ t)) = none := by
    simpa [Declaration.blockText] using primaryConstructor?_body (body ++ ascii '\x7d' :: t)
  simp only [fieldsAfter, hnone, Option.getD_none, body?_blockText h, Option.map_some,
    Option.getD_some]
  rfl

namespace ClassSyntax

variable {c : ClassSyntax L}

/-- The fields of a body are read in front of the next class, whether there is a body or not. -/
lemma bodyFields_blockText (h : c.IsClear) {t : Text} (ht : IsNext t) :
    ((body? (c.blockText ++ ascii '\n' :: t)).map bodyFields).getD [] =
      (c.members.getD []).flatMap Member.fields := by
  have hclear := h.2
  unfold blockText
  cases hmembers : c.members with
  | none => simp [body?_next ht]
  | some ms =>
    rw [Option.elim_some, utf8_space, List.singleton_append, List.cons_append,
      body?_blockText (balanced_bodyText ms), Option.map_some, Option.getD_some,
      bodyFields_bodyText (by simpa [hmembers] using hclear), Option.getD_some]

/-- There is no primary constructor if none was printed. -/
lemma primaryConstructor?_blockText (c : ClassSyntax L) {t : Text} (ht : IsNext t) :
    primaryConstructor? (c.blockText ++ ascii '\n' :: t) = none := by
  unfold blockText
  cases c.members with
  | none => exact primaryConstructor?_next ht
  | some ms =>
    simpa [Declaration.blockText, utf8_space] using
      primaryConstructor?_body (bodyText ms ++ ascii '\x7d' :: ascii '\n' :: t)

/-- The fields of a printed class are read behind its name. -/
lemma fieldsAfter_tail (hL : Speaks L) (h : c.IsClear) {t : Text} (ht : IsNext t) :
    fieldsAfter (c.tail ++ t) = c.fields := by
  have htail : c.tail ++ t = c.constructorText ++ (c.blockText ++ ascii '\n' :: t) := by
    simp [tail, utf8_newline]
  rw [htail, constructorText, fieldsAfter, fields, ← bodyFields_blockText h ht]
  cases hparams : c.params with
  | none =>
    rw [Option.elim_none, List.nil_append, c.primaryConstructor?_blockText ht]
    rfl
  | some params =>
    have hclear : ∀ q ∈ params, q.IsClear := by simpa [hparams] using h.1
    simp only [Option.elim_some, primaryConstructor?_params, Option.getD_some,
      parameterFields_join hL hclear]

/-- What stands behind the name of a class holds no header of another one. -/
lemma free_tail (hk : L.Avoids "class") : Free "class" c.tail := by
  have hblock : Free "class" c.blockText := by
    unfold blockText
    cases c.members with
    | none => exact .nil
    | some ms =>
      have hclosed := (free_bodyText hk ms).append_sep hk.keyword (s := [ascii '\x7d']) (by decide)
      exact .sep_append hk.keyword (s := utf8 " ") (by decide)
        (.sep_append hk.keyword (s := [ascii '\x7b']) (by decide) hclosed)
  have hconstructor : Free "class" (c.constructorText ++ c.blockText) := by
    unfold constructorText
    cases c.params with
    | none => exact hblock
    | some params =>
      have hlast : (paramsText params).getLast?.any isWord = false :=
        getLast?_sep (s := [ascii ')']) (by decide) (ascii '(' :: join ", " (params.map Param.text))
      exact (free_paramsText hk (by decide) params).append hblock (by simp [apart, hlast])
  exact hconstructor.append_sep hk.keyword (by decide)

end ClassSyntax

/-! ### What precedes a class -/

/-- The word before a place is found behind a blank or a line end. -/
lemma wordBefore_word {g : UInt8} (hg : g = ascii ' ' ∨ g = ascii '\n') {w : Text} (hw : isIdent w)
    {before : Text} (hbefore : before.head?.any isIdentPart = false) :
    wordBefore (g :: (w.reverse ++ before)) = w := by
  have hpassed : ∀ b, isIdentPart b = true →
      (isBlank b || b == ascii '\n' || b == ascii '\r') = false := by
    intro b hb
    have hgap := isGap_of_isInk (isInk_of_isIdentPart hb)
    simp only [isGap, Bool.or_eq_false_iff] at hgap
    simp only [isBlank, hgap, Bool.or_self]
  have hgap : (isBlank g || g == ascii '\n' || g == ascii '\r') = true := by
    rcases hg with rfl | rfl <;> decide
  have hall : ∀ b ∈ w.reverse, isIdentPart b := by
    simpa using List.all_eq_true.mp (all_isIdentPart_of_isIdent hw)
  have hdrop : (w.reverse ++ before).dropWhile
      (fun b => isBlank b || b == ascii '\n' || b == ascii '\r') = w.reverse ++ before := by
    cases hcase : w.reverse with
    | nil =>
      rw [List.reverse_eq_nil_iff] at hcase
      simp [hcase, isIdent] at hw
    | cons b v => simp [hpassed b (hall b (by simp [hcase]))]
  have htake : before.takeWhile isIdentPart = [] := by
    cases before with
    | nil => rfl
    | cons b before => simpa using hbefore
  simp only [wordBefore, List.dropWhile_cons, hgap, if_true, hdrop,
    List.takeWhile_append_of_pos hall, htake]
  simp

/-- No word stands before a place behind a closing bracket. -/
lemma wordBefore_close {b : UInt8} (hb : b = ascii ')' ∨ b = ascii '\x7d') (before : Text) :
    wordBefore (ascii '\n' :: b :: before) = [] := by
  have hpart : isIdentPart b = false := by rcases hb with rfl | rfl <;> decide
  have hline : (isBlank (ascii '\n') || ascii '\n' == ascii '\n' || ascii '\n' == ascii '\r') =
      true := by decide
  have hpassed : (isBlank b || b == ascii '\n' || b == ascii '\r') = false := by
    rcases hb with rfl | rfl <;> decide
  simp [wordBefore, hpassed, hpart]

/-- The text before a printed class: nothing, or a line end, and before it no word that makes the
header one of something else. -/
structure IsBetween (before : Text) : Prop where
  /-- A line starts here. -/
  line : before = [] ∨ ∃ r, before = ascii '\n' :: r
  /-- The header is one of a class. -/
  word : wordBefore before ≠ "enum" ∧ wordBefore before ≠ "annotation"

/-- The words in front of the keyword leave a header one of a class. -/
lemma IsBetween.lead {before : Text} (h : IsBetween before) (c : ClassSyntax L) :
    before.head?.any isWord = false ∧ isMember (c.lead.reverse ++ before) = false ∧
      wordBefore (c.lead.reverse ++ before) ≠ "enum" ∧
      wordBefore (c.lead.reverse ++ before) ≠ "annotation" := by
  have hword : before.head?.any isWord = false := by
    rcases h.line with rfl | ⟨r, rfl⟩
    · rfl
    · simp only [List.head?_cons, Option.any_some]
      decide
  refine ⟨hword, ?_⟩
  unfold ClassSyntax.lead
  cases c.isData with
  | false =>
    refine ⟨?_, h.word⟩
    have hblank : isBlank (ascii '\n') = false := by decide
    have hdot : (ascii '\n' == ascii '.' || ascii '\n' == ascii ':') = false := by decide
    rcases h.line with rfl | ⟨r, rfl⟩
    · rfl
    · simp [onlyIf, isMember, hblank, hdot]
  | true =>
    have hlead : (onlyIf true "data ").reverse ++ before =
        ascii ' ' :: ((utf8 "data").reverse ++ before) := rfl
    have hpart : before.head?.any isIdentPart = false := by
      rcases h.line with rfl | ⟨r, rfl⟩
      · rfl
      · simp only [List.head?_cons, Option.any_some]
        decide
    rw [hlead, wordBefore_word (Or.inl rfl) (by decide) hpart]
    exact ⟨rfl, by decide, by decide⟩

/-- After a printed class the next one can follow. -/
lemma isBetween_text (hL : Speaks L) (c : ClassSyntax L) (before : Text) :
    IsBetween ((c.text ++ "\n").reverse ++ before) := by
  have hclass : utf8 "class " = utf8 "class" ++ [ascii ' '] := by decide
  have hreverse : (c.text ++ utf8 "\n").reverse ++ before =
      ascii '\n' :: (c.text.reverse ++ before) := by simp [utf8_newline]
  have hclosed : ∀ {b : UInt8} {s : Text}, (b = ascii ')' ∨ b = ascii '\x7d') →
      c.text = s ++ [b] → IsBetween (ascii '\n' :: (c.text.reverse ++ before)) := by
    intro b s hb hs
    refine ⟨Or.inr ⟨_, rfl⟩, ?_⟩
    rw [hs, List.reverse_append, List.reverse_singleton, List.singleton_append, List.cons_append,
      wordBefore_close hb]
    decide
  rw [hreverse]
  cases hmembers : c.members with
  | some ms =>
    have htext : c.text = c.lead ++ "class " ++ c.name.1 ++ c.constructorText ++
        (utf8 " " ++ ascii '\x7b' :: bodyText ms) ++ [ascii '\x7d'] := by
      simp [ClassSyntax.text, ClassSyntax.blockText, hmembers, blockText]
    exact hclosed (Or.inr rfl) htext
  | none =>
    cases hparams : c.params with
    | some params =>
      have htext : c.text = c.lead ++ "class " ++ c.name.1 ++
          ascii '(' :: join ", " (params.map Param.text) ++ [ascii ')'] := by
        simp [ClassSyntax.text, ClassSyntax.constructorText, ClassSyntax.blockText, hmembers,
          hparams, paramsText]
      exact hclosed (Or.inl rfl) htext
    | none =>
      -- the name of the class is the word before the next header
      have hname := not_mem_of_isName c.name.2
      have htext : c.text.reverse ++ before =
          c.name.1.reverse ++ ascii ' ' :: ((c.lead ++ "class").reverse ++ before) := by
        simp [ClassSyntax.text, ClassSyntax.constructorText, ClassSyntax.blockText, hmembers,
          hparams, hclass]
      have hword : wordBefore (ascii '\n' :: (c.text.reverse ++ before)) = c.name.1 := by
        rw [htext]
        exact wordBefore_word (Or.inr rfl) (isIdent_of_isName c.name.2) (by simp; decide)
      refine ⟨Or.inr ⟨_, rfl⟩, ?_⟩
      rw [hword]
      exact ⟨fun h => hname (hL.declarationWords _ (h ▸ by decide)),
        fun h => hname (hL.declarationWords _ (h ▸ by decide))⟩

/-! ### Sources -/

/-- The source of classes, each on lines of its own. -/
def source (cs : List (ClassSyntax L)) : Text := cs.flatMap fun c => c.text ++ utf8 "\n"

/-- What follows a class in a source is another class or nothing. -/
lemma isNext_source (cs : List (ClassSyntax L)) : IsNext (source cs) := by
  cases cs with
  | nil => exact Or.inl rfl
  | cons c cs =>
    have hdata : utf8 "data " = utf8 "data" ++ [ascii ' '] := by decide
    have hclass : utf8 "class " = utf8 "class" ++ [ascii ' '] := by decide
    refine Or.inr ?_
    cases hdata' : c.isData with
    | false =>
      refine ⟨"class", c.name.1 ++ c.constructorText ++ c.blockText ++ "\n" ++ source cs,
        Or.inr rfl, ?_⟩
      simp [source, ClassSyntax.text, ClassSyntax.lead, onlyIf, hdata', hclass]
    | true =>
      refine ⟨"data", utf8 "class " ++ c.name.1 ++ c.constructorText ++ c.blockText ++ "\n" ++
        source cs, Or.inl rfl, ?_⟩
      simp [source, ClassSyntax.text, ClassSyntax.lead, onlyIf, hdata', hdata]

/-- A printed class is found by its header and read back, with another one or nothing behind it. -/
lemma occurrencesFrom_class (hL : Speaks L) {c : ClassSyntax L} (hc : c.IsClear) {before : Text}
    (hbefore : IsBetween before) {t : Text} (ht : IsNext t) :
    (occurrencesFrom classHeader? before 0 (c.text ++ "\n" ++ t)).filterMap classAt? =
      c.decl :: (occurrencesFrom classHeader? ((c.text ++ "\n").reverse ++ before) 0 t).filterMap
        classAt? := by
  have hk := hL.avoids.keyword
  have hword : utf8 "class " = utf8 "class" ++ [ascii ' '] := by decide
  obtain ⟨hhead, hmember, henum, hannotation⟩ := hbefore.lead c
  have hlead : Free "class" c.lead ∧ c.lead.getLast?.any isWord = false := by
    have hdata : Free "class" (utf8 "data" ++ utf8 " ") :=
      (Free.of_word hk (by decide) (by decide)).append_sep hk (by decide)
    unfold ClassSyntax.lead
    cases c.isData with
    | false => exact ⟨.nil, rfl⟩
    | true => exact ⟨hdata, by decide⟩
  have hnames : ReadsNames isNameStart isWord :=
    ⟨by decide +kernel, by decide +kernel, fun _ h => h, by decide⟩
  have htail : c.tail.head?.any (!isWord ·) := by
    unfold ClassSyntax.tail ClassSyntax.constructorText ClassSyntax.blockText
    cases c.params with
    | some params => exact head?_append_any (head?_append_any (by simp [paramsText]; decide) _) _
    | none =>
      cases c.members with
      | some ms =>
        have hblock : (utf8 " " ++ blockText (bodyText ms)).head?.any (!isWord ·) :=
          head?_append_any (by decide) _
        exact head?_append_any hblock _
      | none => exact (by decide : (utf8 "\n").head?.any (!isWord ·))
  have hend : c.tail.getLast?.any isWord = false := getLast?_sep (by decide) _
  have htext : c.text ++ utf8 "\n" =
      c.lead ++ utf8 "class" ++ ascii ' ' :: c.name.1 ++ c.tail := by
    simp [ClassSyntax.text, ClassSyntax.tail, hword]
  have hfound := occurrencesFrom_header hk hnames.not_gap hnames.word hhead hlead.1 hlead.2
    (hnames.head? c.name.2) (hnames.tail c.name.2) (c.free_tail hL.avoids) htail hend (t := t)
  have hafter : (utf8 "class" ++ ascii ' ' :: c.name.1 ++ c.tail ++ t).drop
      (utf8 "class" ++ ascii ' ' :: c.name.1).length = c.tail ++ t := by
    rw [List.append_assoc, List.drop_left]
  have hclass : classAt? ⟨c.lead.reverse ++ before, c.name.1,
      (utf8 "class" ++ ascii ' ' :: c.name.1).length,
      utf8 "class" ++ ascii ' ' :: c.name.1 ++ c.tail ++ t⟩ = some c.decl := by
    rw [classAt?_eq_some hmember henum hannotation, Occurrence.after, hafter,
      ClassSyntax.fieldsAfter_tail hL hc ht]
    rfl
  rw [htext, classHeader?, hfound, List.filterMap_cons_some hclass]

/-- Printed classes are found in their order. -/
lemma classes_source (hL : Speaks L) {cs : List (ClassSyntax L)} (h : ∀ c ∈ cs, c.IsClear) :
    classes (source cs) = coalesce (cs.map ClassSyntax.decl) := by
  suffices hfound : ∀ before, IsBetween before →
      (occurrencesFrom classHeader? before 0 (source cs)).filterMap classAt? =
        cs.map ClassSyntax.decl from
    congrArg coalesce (hfound [] ⟨Or.inl rfl, by decide⟩)
  induction cs with
  | nil => intro before _; rfl
  | cons c cs ih =>
    intro before hbefore
    obtain ⟨hc, hcs⟩ := List.forall_mem_cons.mp h
    have hsource : source (c :: cs) = c.text ++ utf8 "\n" ++ source cs := List.flatMap_cons
    rw [hsource, occurrencesFrom_class hL hc hbefore (isNext_source cs), List.map_cons]
    exact congrArg _ (ih hcs _ (isBetween_text hL c before))

/-! ### Reading inverts printing -/

/-- The names and literals of the dialect: modifiers, the words that declare something and the
keyword of delegates are no names, and the keyword of classes stands in no literal. -/
def lexicon : Lexicon where
  reserved := modifiers ++ declarationWords ++ [utf8 "by"]
  accepts := lacksWord "class"

/-- The names of the dialect are none of its words. -/
lemma speaks_lexicon : Speaks lexicon where
  modifiers w hw := List.mem_append_left _ (List.mem_append_left _ hw)
  declarationWords w hw := List.mem_append_left _ (List.mem_append_right _ hw)
  avoids := Lexicon.avoids_of_accepts ⟨by decide, by decide⟩ (by decide) fun _ hs => hs

/-- In the dialect the end of every type is clear. -/
lemma isClear_lexicon (c : ClassSyntax lexicon) : c.IsClear := by
  have hby : lexicon.Reserves "by" := ⟨by decide, by decide⟩
  refine ⟨fun q _ => ?_, fun m _ => ?_⟩
  · cases q with
    | property marks p => exact Or.inr hby
    | plain n => trivial
  · cases m with
    | property marks p => exact Or.inr hby
    | function f => trivial

/-- Classes of different names are read back from their source: in their order, with the properties
among their parameters and in their bodies as fields, the first one of each key. -/
theorem classes_source_of_distinct (cs : List (ClassSyntax lexicon))
    (h : (cs.map fun c => c.name.1).Nodup) : classes (source cs) = cs.map ClassSyntax.decl := by
  have hnames : (cs.map ClassSyntax.decl).map ClassDecl.name = cs.map fun c => c.name.1 := by
    simp [ClassSyntax.decl]
  rw [classes_source speaks_lexicon fun c _ => isClear_lexicon c,
    coalesce_of_nodup (by rw [hnames]; exact h), List.map_map]
  refine List.map_congr_left fun c _ => ?_
  simp [ClassSyntax.decl, keepFirst_keepFirst]

/-- A class without a body in front of one with parameters, a function and a property whose
annotation stands on a line of its own. -/
theorem classes_source_order :
    let name (w : Text) (h : lexicon.isName w) : TypeSyntax lexicon := .name ⟨[], ⟨w, h⟩⟩
    let size : MarkSyntax lexicon := ⟨some ⟨"field", by decide⟩, ⟨[], ⟨"Size", by decide⟩⟩,
      some [⟨some ⟨"max", by decide⟩, .number false ⟨"20", by decide⟩⟩]⟩
    let code : PropertySyntax lexicon := ⟨[⟨"private", by decide⟩], false,
      ⟨⟨"code", by decide⟩, name "String" (by decide), true, some (.name ⟨[], ⟨"null", by decide⟩⟩)⟩⟩
    let total : PropertySyntax lexicon := ⟨[], true, ⟨⟨"total", by decide⟩, .generic
      ⟨[], ⟨"List", by decide⟩⟩ (.last (name "Int" (by decide))), false, none⟩⟩
    let print : FunctionSyntax lexicon := ⟨⟨"print", by decide⟩,
      [.plain ⟨⟨"n", by decide⟩, name "Int" (by decide), false, none⟩], name "Int" (by decide), false,
      ⟨"\n  val total = n\n", .of_plain (by decide), by decide⟩⟩
    let cs : List (ClassSyntax lexicon) := [⟨false, ⟨"Empty", by decide⟩, none, none⟩,
      ⟨true, ⟨"Order", by decide⟩, some [.property [size] code,
        .plain ⟨⟨"hint", by decide⟩, name "Int" (by decide), false, none⟩],
        some [.function print, .property [(size, true)] total]⟩]
    let size' : Constraints := { size := some ⟨none, some 20⟩, raw := [utf8 "@Size(max = 20)"] }
    source cs = utf8 "class Empty\ndata class Order(@field:Size(max = 20) private val code: " ++
      utf8 "String? = null, hint: Int) \x7b\nfun print(n: Int): Int \x7b\n  val total = n\n\x7d\n" ++
      utf8 "@field:Size(max = 20)\nvar total: List<Int>\n\x7d\n" ∧
    (cs.map fun c => c.name.1).Nodup ∧
    classes (source cs) = [⟨"Empty", []⟩, ⟨"Order",
      [⟨"code", "code", "String", true, size'⟩, ⟨"total", "total", "List<Int>", false, size'⟩]⟩] := by
  intro name size code total print cs size'
  have hnodup : (cs.map fun c => c.name.1).Nodup := by decide
  refine ⟨by decide +kernel, hnodup, ?_⟩
  rw [classes_source_of_distinct cs hnodup]
  decide +kernel

end DtoSchema.Declaration.Kotlin
