import DtoSchema.Proofs.Declaration.Java.Elided
import DtoSchema.Proofs.Declaration.Kotlin.Class
import DtoSchema.Proofs.Declaration.Kotlin.Elided

/-!
# Supertypes in headers

Between the name of a class and its body stand type parameters, the parameters of a constructor and
supertypes.  The search for the body sees groups, which it passes, signs and words, and it stops at
a word that starts a declaration.  `ClauseWords` is a header as the search sees it, and
`bodyStart?_clauseWords` says that the words alone decide what it finds.

The words of a supertype are those in the parts of its name (`Supertype.words`).  So a class is read
with its body if none of them starts a declaration (`declared_header`).  The search does not look at
what stands around a word: it stops in a qualified name just as well, and then the body is lost
(`body_lost_behind_qualifier`).
-/

namespace DtoSchema.Declaration

open Text Source

/-! ### Words in a header -/

/-- The text between the name of a declaration and its body, with the words that the search for the
body sees in it. -/
inductive ClauseWords : Text → List Text → Prop
  /-- The empty text. -/
  | nil : ClauseWords [] []
  /-- A byte that starts no word and means nothing in a header. -/
  | sign {b : UInt8} {s : Text} {ws : List Text} : isIdentStart b = false →
      b ∉ utf8 "\x7b(<;\x7d=)" → ClauseWords s ws → ClauseWords (b :: s) ws
  /-- A word. -/
  | word {w s : Text} {ws : List Text} : isIdent w → s.head?.any isIdentPart = false →
      ClauseWords s ws → ClauseWords (w ++ s) (w :: ws)
  /-- A group in parentheses or angle brackets. -/
  | group {o c : UInt8} {t s : Text} {ws : List Text} :
      (o, c) ∈ [(ascii '(', ascii ')'), (ascii '<', ascii '>')] → Balanced (.single o c) t →
      ClauseWords s ws → ClauseWords (o :: (t ++ c :: s)) ws

/-- The search for a body stops at a word that starts a declaration. -/
lemma bodyStart?_declarationWord {w t : Text} (hw : isIdent w) (hmem : w ∈ declarationWords)
    (ht : t.head?.any isIdentPart = false) : bodyStart? (w ++ t) = none := by
  have hident := identAt_append hw ht
  cases w with
  | nil => simp [isIdent] at hw
  | cons b w =>
    simp only [isIdent, Bool.and_eq_true] at hw
    rw [List.cons_append] at *
    exact bodyStart?_eq_none hw.1 (by rwa [hident])

/-- The search for a body passes over a header, unless one of its words starts a declaration. -/
lemma bodyStart?_clauseWords {s : Text} {ws : List Text} (h : ClauseWords s ws) {t : Text}
    (ht : t.head?.any isIdentPart = false) :
    bodyStart? (s ++ t) = if ws.all (· ∉ declarationWords) then bodyStart? t else none := by
  induction h with
  | nil => rfl
  | sign hb hmem _ ih => rw [List.cons_append, bodyStart?_sign hb hmem, ih]
  | @word w s ws hw hs _ ih =>
    have hhead : (s ++ t).head?.any isIdentPart = false := by
      cases s with
      | nil => exact ht
      | cons b s => simpa using hs
    rw [List.append_assoc]
    by_cases hmem : w ∈ declarationWords
    · simp [bodyStart?_declarationWord hw hmem hhead, hmem]
    · rw [bodyStart?_word hw hmem hhead, ih]
      simp [hmem]
  | @group o c i s ws hp hi _ ih =>
    rw [List.cons_append, List.append_assoc, List.cons_append, bodyStart?_nested hp hi, ih]

/-- Two parts of a header have the words of both, if no word goes on from the first to the
second. -/
lemma ClauseWords.append {s t : Text} {ws us : List Text} (hs : ClauseWords s ws)
    (ht : ClauseWords t us)
    (hapart : s.getLast?.any isIdentPart = false ∨ t.head?.any isIdentPart = false) :
    ClauseWords (s ++ t) (ws ++ us) := by
  -- the last byte of a text is that of what follows its first part
  have hlast : ∀ (a : Text) (b : UInt8) (s : Text), (a ++ b :: s).getLast? = (b :: s).getLast? :=
    fun a b s => List.getLast?_append_of_ne_nil a (by simp)
  induction hs with
  | nil => exact ht
  | @sign b s ws hb hmem _ ih =>
    refine .sign hb hmem (ih ?_)
    cases s with
    | nil => exact Or.inl rfl
    | cons c s => rwa [← List.singleton_append, hlast] at hapart
  | @word w s ws hw hs _ ih =>
    rw [List.append_assoc]
    cases s with
    | nil =>
      have hword := getLast?_isIdentPart_of_isIdent hw
      have hhead := hapart.resolve_left (by simp [hword])
      exact .word hw hhead (ih (Or.inr hhead))
    | cons b s =>
      rw [hlast] at hapart
      exact .word hw (by simpa using hs) (ih hapart)
  | @group o c i s ws hp hi _ ih =>
    rw [List.cons_append, List.append_assoc, List.cons_append]
    refine .group hp hi (ih ?_)
    cases s with
    | nil => exact Or.inl rfl
    | cons b s =>
      have hsplit : o :: (i ++ c :: b :: s) = (o :: (i ++ [c])) ++ b :: s := by simp
      rwa [hsplit, hlast] at hapart

/-! ### Supertypes -/

/-- A byte of an identifier; every byte of a character that is not written with one byte may be
one. -/
def isSegmentByte (b : UInt8) : Bool := isIdentPart b || 0x80 ≤ b

/-- The text may be a part of a qualified name. -/
def isSegment (s : Text) : Bool := !s.isEmpty && s.all isSegmentByte && !s.head?.any isDigit

/-- `wordsIn` from inside a text: the number counts the bytes of the last word that are still to be
passed. -/
def wordsFrom : ℕ → Text → List Text
  | _, [] => []
  | k + 1, _ :: s => wordsFrom k s
  | 0, b :: s =>
    let word := identAt (b :: s)
    if word = [] then wordsFrom 0 s else word :: wordsFrom (word.length - 1) s

/-- The words in a text. -/
def wordsIn (s : Text) : List Text := wordsFrom 0 s

lemma wordsFrom_pass (a t : Text) : wordsFrom a.length (a ++ t) = wordsIn t := by
  induction a with
  | nil => rfl
  | cons b a ih => simpa [wordsFrom] using ih

/-- The bytes of a qualified name are signs and words. -/
lemma clauseWords_wordsIn {s : Text} (h : s.all isSegmentByte) : ClauseWords s (wordsIn s) := by
  induction hn : s.length using Nat.strong_induction_on generalizing s with
  | _ n ih =>
    rcases identAt_cases s with ⟨hword, hhead⟩ | ⟨w, t, rfl, hw, hword, ht⟩
    · cases s with
      | nil => exact .nil
      | cons b s =>
        simp only [List.all_cons, Bool.and_eq_true] at h
        simp only [List.length_cons] at hn
        rw [wordsIn, wordsFrom, if_pos hword]
        exact .sign (by simpa using hhead) (notMem_of_class (by decide) h.1)
          (ih s.length (by omega) h.2 rfl)
    · cases w with
      | nil => simp [isIdent] at hw
      | cons b w =>
        rw [List.all_append, Bool.and_eq_true] at h
        simp only [List.length_append, List.length_cons] at hn
        have hwords : wordsIn (b :: w ++ t) = (b :: w) :: wordsIn t := by
          rw [List.cons_append] at hword ⊢
          rw [wordsIn, wordsFrom, hword, if_neg (by simp), List.length_cons, Nat.add_sub_cancel,
            wordsFrom_pass]
        rw [hwords]
        exact .word hw ht (ih t.length (by omega) h.2 rfl)

/-- A group in brackets, or nothing. -/
abbrev Group (o c : UInt8) : Type := Option {t : Text // Balanced (.single o c) t}

/-- The group as it is written. -/
def Group.text {o c : UInt8} (g : Group o c) : Text := g.elim [] fun t => o :: (t.1 ++ [c])

/-- The search for a body sees no word in a group. -/
lemma Group.clauseWords {o c : UInt8}
    (hp : (o, c) ∈ [(ascii '(', ascii ')'), (ascii '<', ascii '>')]) (g : Group o c) :
    ClauseWords g.text [] := by
  cases g with
  | none => exact .nil
  | some t => exact .group hp t.2 .nil

/-- A group does not go on with a word. -/
lemma Group.head?_text {o c : UInt8}
    (hp : (o, c) ∈ [(ascii '(', ascii ')'), (ascii '<', ascii '>')]) (g : Group o c) {s : Text}
    (hs : s.head?.any isIdentPart = false) : (g.text ++ s).head?.any isIdentPart = false := by
  cases g with
  | none => exact hs
  | some t =>
    simp only [List.mem_cons, Prod.mk.injEq, List.not_mem_nil, or_false] at hp
    rcases hp with ⟨rfl, rfl⟩ | ⟨rfl, rfl⟩ <;> rfl

/-- A supertype: a qualified name with type arguments and the arguments of a call, if there are
any. -/
structure Supertype where
  /-- The name. -/
  name : DottedName isSegment
  /-- The type arguments. -/
  typeArguments : Group (ascii '<') (ascii '>') := none
  /-- The arguments of the call. -/
  callArguments : Group (ascii '(') (ascii ')') := none

namespace Supertype

variable (S : Supertype)

/-- The supertype as it is written. -/
def text : Text := S.name.text ++ (S.typeArguments.text ++ S.callArguments.text)

/-- The words in the name of the supertype. -/
def words : List Text := (S.name.qualifiers ++ [S.name.last]).flatMap (wordsIn ·.1)

/-- No word of the supertype starts a declaration. -/
def isClear : Bool := S.words.all (· ∉ declarationWords)

/-- The words in a qualified name are those in its parts. -/
lemma clauseWords_name (name : DottedName isSegment) :
    ClauseWords name.text ((name.qualifiers ++ [name.last]).flatMap (wordsIn ·.1)) := by
  obtain ⟨qualifiers, last⟩ := name
  have hsegment : ∀ w : {w : Text // isSegment w}, ClauseWords w.1 (wordsIn w.1) := by
    intro w
    have hw := w.2
    simp only [isSegment, Bool.and_eq_true] at hw
    exact clauseWords_wordsIn hw.1.2
  induction qualifiers with
  | nil => simpa [DottedName.text, DottedName.qualification] using hsegment last
  | cons w ws ih =>
    rw [DottedName.text_cons]
    exact (hsegment w).append (.sign (by decide) (by decide) ih) (Or.inr rfl)

lemma clauseWords : ClauseWords S.text S.words := by
  have hgroups : ClauseWords (S.typeArguments.text ++ S.callArguments.text) ([] ++ []) :=
    (S.typeArguments.clauseWords (by decide)).append (S.callArguments.clauseWords (by decide))
      (Or.inr (by simpa using S.callArguments.head?_text (by decide) (s := []) rfl))
  have hhead : (S.typeArguments.text ++ S.callArguments.text).head?.any isIdentPart = false := by
    refine S.typeArguments.head?_text (by decide) ?_
    simpa using S.callArguments.head?_text (by decide) (s := []) rfl
  have hall := (clauseWords_name S.name).append hgroups (Or.inr hhead)
  rwa [List.append_nil, List.append_nil] at hall

end Supertype

/-- The supertypes behind a word or a sign, if there are any. -/
def supertypesText (lead : Text) (ss : List Supertype) : Text :=
  if ss = [] then [] else lead ++ join ", " (ss.map Supertype.text)

/-- Supertypes do not go on with a word. -/
lemma head?_supertypesText {lead : Text} (hlead : lead.head? = some (ascii ' '))
    (ss : List Supertype) {s : Text} (hs : s.head?.any isIdentPart = false) :
    (supertypesText lead ss ++ s).head?.any isIdentPart = false := by
  unfold supertypesText
  split
  · exact hs
  · obtain ⟨r, rfl⟩ := List.head?_eq_some_iff.mp hlead
    rfl

/-- The words of supertypes are those of each of them. -/
lemma clauseWords_join (ss : List Supertype) :
    ClauseWords (join ", " (ss.map Supertype.text)) (ss.flatMap Supertype.words) := by
  induction ss with
  | nil => exact .nil
  | cons S ss ih =>
    cases ss with
    | nil => simpa [join] using S.clauseWords
    | cons S' ss =>
      have hrest : ClauseWords (ascii ',' :: ascii ' ' ::
          join ", " ((S' :: ss).map Supertype.text)) ((S' :: ss).flatMap Supertype.words) :=
        .sign (by decide) (by decide) (.sign (by decide) (by decide) ih)
      rw [List.map_cons, List.map_cons, join_cons_cons, utf8_commaSpace, List.append_assoc,
        List.flatMap_cons]
      exact S.clauseWords.append hrest (Or.inr rfl)

/-- The words of supertypes and of what stands in front of them. -/
def supertypesWords (leading : List Text) (ss : List Supertype) : List Text :=
  if ss = [] then [] else leading ++ ss.flatMap Supertype.words

lemma clauseWords_supertypes {lead : Text} {leading : List Text}
    (hlead : ClauseWords lead leading) (hlast : lead.getLast?.any isIdentPart = false)
    (ss : List Supertype) :
    ClauseWords (supertypesText lead ss) (supertypesWords leading ss) := by
  unfold supertypesText supertypesWords
  split
  · exact .nil
  · exact hlead.append (clauseWords_join ss) (Or.inl hlast)

lemma all_supertypesWords {leading : List Text} (hleading : ∀ w ∈ leading, w ∉ declarationWords)
    (ss : List Supertype) :
    (supertypesWords leading ss).all (· ∉ declarationWords) = ss.all Supertype.isClear := by
  have hall : leading.all (· ∉ declarationWords) := by simpa using hleading
  unfold supertypesWords
  split
  · next hnil => simp [hnil]
  · rw [List.all_append, hall, Bool.true_and, List.all_flatMap]
    rfl

/-! ### Bodies behind headers -/

/-- The search finds the brace of the body behind a header, unless one of the words of the header
starts a declaration. -/
lemma bodyStart?_header {tail : Text} {ws : List Text} (h : ClauseWords tail ws)
    (body post : Text) :
    bodyStart? (tail ++ ascii ' ' :: (blockText body ++ post)) =
      if ws.all (· ∉ declarationWords) then some (blockText body ++ post) else none := by
  rw [bodyStart?_clauseWords h rfl, bodyStart?_sign (by decide) (by decide)]
  rfl

/-- The body behind a header. -/
lemma body?_header {tail : Text} {ws : List Text} (h : ClauseWords tail ws) {body : Text}
    (hbody : Balanced .braces body) (post : Text)
    (hclear : ws.all (· ∉ declarationWords)) :
    body? (tail ++ ascii ' ' :: (blockText body ++ post)) = some body := by
  have hblock : blockText body ++ post = ascii '\x7b' :: (body ++ ascii '\x7d' :: post) := by
    simp [blockText]
  rw [body?, bodyStart?_header h, if_pos hclear, Option.bind_some, hblock,
    readBalanced?_nested (by decide) hbody]
  rfl

/-- The header of a class is found where it is written. -/
lemma exists_occurrences_class {start part : UInt8 → Bool} (hbytes : AreIdentBytes start part)
    {name : Text} (hstart : name.head?.any start) (hpart : name.tail.all part) {pre : Text}
    (hpre : startsAfresh ["class"] pre) {t : Text} (ht : t.head?.any isIdentPart = false) :
    ∃ earlier o later, occurrences (header? ["class"] start part)
        (pre ++ ("class " ++ name ++ t)) = earlier ++ o :: later ∧
      o.before = pre.reverse ∧ o.value = name ∧ o.after = t := by
  obtain ⟨b, name, rfl⟩ : ∃ b rest, name = b :: rest := by
    cases name with
    | nil => simp at hstart
    | cons b rest => exact ⟨b, rest, rfl⟩
  have hend : t.head?.any part = false := by
    cases t with
    | nil => rfl
    | cons c t =>
      by_contra hc
      simp [hbytes.2 c (by simpa using hc)] at ht
  obtain ⟨earlier, later, hfound⟩ := exists_occurrences_header (by simp) (by decide) hbytes hpre
    (by simpa using hstart) (by simpa using hpart) hend
  have htext : utf8 "class " ++ b :: name ++ t =
      join " " [utf8 "class"] ++ ascii ' ' :: b :: name ++ t := by
    have hclass : utf8 "class " = join " " [utf8 "class"] ++ [ascii ' '] := by decide
    simp [hclass]
  rw [htext, hfound]
  exact ⟨earlier, _, later, rfl, rfl, rfl, List.drop_left⟩

/-- A declared class whose name no other one has is reported with the first field of each key. -/
lemma mem_coalesce_of_mem_declared {c : ClassDecl} {cs : List ClassDecl} (h : c ∈ cs)
    (hcount : (cs.map ClassDecl.name).count c.name = 1) :
    ⟨c.name, keepFirst c.fields⟩ ∈ coalesce (cs.map fun c => ⟨c.name, dedupFields c.fields⟩) := by
  have hnames : (cs.map fun c : ClassDecl => (⟨c.name, dedupFields c.fields⟩ : ClassDecl)).map
      ClassDecl.name = cs.map ClassDecl.name := by simp
  have hmem := mem_coalesce_of_count (List.mem_map_of_mem h) (by rw [hnames]; exact hcount)
  simpa [dedupFields_eq_keepFirst, keepFirst_keepFirst] using hmem

namespace Java

/-- The header of a class. -/
structure HeaderSyntax where
  /-- The name. -/
  name : {n : Text // isIdent n}
  /-- The type parameters. -/
  typeParameters : Group (ascii '<') (ascii '>') := none
  /-- The superclass. -/
  superclass : Option Supertype := none
  /-- The interfaces. -/
  interfaces : List Supertype := []

namespace HeaderSyntax

variable (h : HeaderSyntax)

/-- What stands between the name and the body. -/
def tail : Text :=
  h.typeParameters.text ++ (supertypesText " extends " h.superclass.toList ++
    supertypesText " implements " h.interfaces)

/-- No word of a supertype starts a declaration. -/
def isClear : Bool := (h.superclass.toList ++ h.interfaces).all Supertype.isClear

/-- The class as it is written. -/
def text (body : Text) : Text :=
  "class " ++ h.name.1 ++ (h.tail ++ ascii ' ' :: blockText body)

/-- The words between the name and the body. -/
def words : List Text :=
  supertypesWords ["extends"] h.superclass.toList ++ supertypesWords ["implements"] h.interfaces

lemma head?_tail {s : Text} (hs : s.head?.any isIdentPart = false) :
    (h.tail ++ s).head?.any isIdentPart = false := by
  rw [tail, List.append_assoc, List.append_assoc]
  exact h.typeParameters.head?_text (by decide)
    (head?_supertypesText (by decide) _ (head?_supertypesText (by decide) _ hs))

lemma clauseWords : ClauseWords h.tail h.words := by
  have hextends : ClauseWords (utf8 " extends ") ["extends"] :=
    .sign (s := utf8 "extends" ++ [ascii ' ']) (by decide) (by decide)
      (.word (by decide) (by decide) (.sign (by decide) (by decide) .nil))
  have himplements : ClauseWords (utf8 " implements ") ["implements"] :=
    .sign (s := utf8 "implements" ++ [ascii ' ']) (by decide) (by decide)
      (.word (by decide) (by decide) (.sign (by decide) (by decide) .nil))
  have hinterfaces :
      (supertypesText " implements " h.interfaces).head?.any isIdentPart = false := by
    simpa using head?_supertypesText (by decide) h.interfaces (s := []) rfl
  have hsupertypes := (clauseWords_supertypes hextends (by decide) h.superclass.toList).append
    (clauseWords_supertypes himplements (by decide) h.interfaces) (Or.inr hinterfaces)
  exact (h.typeParameters.clauseWords (by decide)).append hsupertypes
    (Or.inr (head?_supertypesText (by decide) _ hinterfaces))

lemma all_words : h.words.all (· ∉ declarationWords) = h.isClear := by
  rw [words, List.all_append, all_supertypesWords (by decide), all_supertypesWords (by decide),
    isClear, List.all_append]

variable {h}

/-- A class is declared with the fields of its body. -/
lemma mem_declared (hclear : h.isClear) {pre body : Text} (hbody : Balanced .braces body)
    (hpre : startsAfresh ["class"] pre) (hmember : isMember pre.reverse = false)
    (henum : wordBefore pre.reverse ≠ "enum") (post : Text) :
    ⟨h.name.1, bodyFields body⟩ ∈ declared (pre ++ h.text body ++ post) := by
  have htext : pre ++ h.text body ++ post =
      pre ++ ("class " ++ h.name.1 ++ (h.tail ++ ascii ' ' :: (blockText body ++ post))) := by
    simp [text]
  have hname := head?_isIdentStart_of_isIdent h.name.2
  have hpart : h.name.1.tail.all isIdentPart := List.all_eq_true.mpr fun b hb =>
    List.all_eq_true.mp (all_isIdentPart_of_isIdent h.name.2) b (List.mem_of_mem_tail hb)
  obtain ⟨earlier, o, later, hfound, hbefore, hvalue, hafter⟩ :=
    exists_occurrences_class areIdentBytes_ident hname hpart hpre
      (h.head?_tail (s := ascii ' ' :: (blockText body ++ post)) rfl)
  have hat : declaredAt? o = some ⟨h.name.1, bodyFields body⟩ := by
    have hfree := h.all_words.trans hclear
    simp only [declaredAt?, hbefore, hmember, beq_false_of_ne henum, hvalue, hafter,
      body?_header h.clauseWords hbody post hfree]
    rfl
  rw [htext, declared, classHeader?, hfound]
  exact List.mem_filterMap.mpr ⟨o, by simp, hat⟩

end HeaderSyntax

end Java

namespace Kotlin

/-- The text is the name of a class. -/
def isClassName (n : Text) : Bool := n.head?.any isNameStart && n.tail.all isWord

/-- A class is declared with the fields that are read behind its name. -/
lemma mem_declared_class {name pre t : Text} (hname : isClassName name)
    (hpre : startsAfresh ["class"] pre) (hmember : isMember pre.reverse = false)
    (henum : wordBefore pre.reverse ≠ "enum") (hmark : wordBefore pre.reverse ≠ "annotation")
    (ht : t.head?.any isIdentPart = false) :
    ⟨name, fieldsAfter t⟩ ∈ declared (pre ++ ("class " ++ name ++ t)) := by
  simp only [isClassName, Bool.and_eq_true] at hname
  obtain ⟨earlier, o, later, hfound, hbefore, hvalue, hafter⟩ :=
    exists_occurrences_class areIdentBytes_word hname.1 hname.2 hpre ht
  have hat : declaredAt? o = some ⟨name, fieldsAfter t⟩ := by
    rw [← hafter, ← hvalue]
    simp only [declaredAt?, hbefore, hmember, beq_false_of_ne henum, beq_false_of_ne hmark]
    rfl
  rw [declared, classHeader?, hfound]
  exact List.mem_filterMap.mpr ⟨o, by simp, hat⟩

/-- The header of a class. -/
structure HeaderSyntax where
  /-- The name. -/
  name : {n : Text // isClassName n}
  /-- The parameters of the primary constructor. -/
  params : Group (ascii '(') (ascii ')') := none
  /-- The supertypes. -/
  supertypes : List Supertype := []

namespace HeaderSyntax

variable (h : HeaderSyntax)

/-- What stands between the name and the body. -/
def tail : Text := h.params.text ++ supertypesText " : " h.supertypes

/-- No word of a supertype starts a declaration. -/
def isClear : Bool := h.supertypes.all Supertype.isClear

/-- The class as it is written. -/
def text (body : Text) : Text :=
  "class " ++ h.name.1 ++ (h.tail ++ ascii ' ' :: blockText body)

/-- The properties among the parameters of the primary constructor. -/
def paramFields : List Field := parameterFields (h.params.elim [] (·.1))

lemma head?_tail {s : Text} (hs : s.head?.any isIdentPart = false) :
    (h.tail ++ s).head?.any isIdentPart = false := by
  rw [tail, List.append_assoc]
  exact h.params.head?_text (by decide) (head?_supertypesText (by decide) _ hs)

lemma clauseWords_supertypes :
    ClauseWords (supertypesText " : " h.supertypes) (supertypesWords [] h.supertypes) :=
  Declaration.clauseWords_supertypes (.sign (by decide) (by decide) (.sign (by decide) (by decide)
    (.sign (by decide) (by decide) .nil))) (by decide) h.supertypes

lemma clauseWords : ClauseWords h.tail (supertypesWords [] h.supertypes) :=
  (h.params.clauseWords (by decide)).append h.clauseWords_supertypes
    (Or.inr (by simpa using head?_supertypesText (by decide) h.supertypes (s := []) rfl))

lemma all_words :
    (supertypesWords [] h.supertypes).all (· ∉ declarationWords) = h.isClear :=
  all_supertypesWords (by simp) h.supertypes

/-- There is no primary constructor in front of supertypes or of the body. -/
lemma primaryConstructor?_supertypes (body post : Text) :
    primaryConstructor? (supertypesText " : " h.supertypes ++
      ascii ' ' :: (Declaration.blockText body ++ post)) = none := by
  unfold supertypesText
  split
  · simpa [Declaration.blockText] using primaryConstructor?_body (body ++ ascii '\x7d' :: post)
  · have hident := identAt_eq_nil (show isIdentStart (ascii ':') = false by decide)
    refine primaryConstructor?_eq_none (b := ascii ':') (r := _) rfl (by decide) (by decide)
      (by decide) (by decide) ?_ ?_
    · rw [hident]
      decide
    · rw [hident]
      decide

/-- The fields behind the name are those of the parameters and of the body. -/
lemma fieldsAfter_tail (hclear : h.isClear) {body : Text} (hbody : Balanced .braces body)
    (post : Text) :
    fieldsAfter (h.tail ++ ascii ' ' :: (Declaration.blockText body ++ post)) =
      h.paramFields ++ bodyFields body := by
  have hread := body?_header h.clauseWords_supertypes hbody post (h.all_words.trans hclear)
  have hnone := h.primaryConstructor?_supertypes body post
  rw [tail, paramFields, List.append_assoc]
  cases hparams : h.params with
  | none =>
    simp only [Group.text, Option.elim_none, List.nil_append, fieldsAfter, hnone, Option.getD_none,
      hread]
    rfl
  | some params =>
    have hgroup := primaryConstructor?_group params.2 (supertypesText " : " h.supertypes ++
      ascii ' ' :: (Declaration.blockText body ++ post))
    simp only [Group.text, Option.elim_some, List.cons_append, List.append_assoc, List.nil_append,
      fieldsAfter, hgroup, Option.getD_some, hread]
    rfl

variable {h}

/-- A class is declared with the fields of its parameters and of its body. -/
lemma mem_declared (hclear : h.isClear) {pre body : Text} (hbody : Balanced .braces body)
    (hpre : startsAfresh ["class"] pre) (hmember : isMember pre.reverse = false)
    (henum : wordBefore pre.reverse ≠ "enum") (hmark : wordBefore pre.reverse ≠ "annotation")
    (post : Text) :
    ⟨h.name.1, h.paramFields ++ bodyFields body⟩ ∈ declared (pre ++ h.text body ++ post) := by
  have htext : pre ++ h.text body ++ post = pre ++ ("class " ++ h.name.1 ++
      (h.tail ++ ascii ' ' :: (Declaration.blockText body ++ post))) := by
    simp [text]
  rw [htext, ← h.fieldsAfter_tail hclear hbody post]
  exact mem_declared_class h.name.2 hpre hmember henum hmark (h.head?_tail rfl)

end HeaderSyntax

end Kotlin

/-! ### Classes with supertypes -/

/-- A class is read with its own body, in both dialects and wherever it stands in a source, if no
word in the names of its supertypes starts a declaration.  The search for the body finds exactly the
brace of the body in this case, and nothing at all otherwise.  The class is declared with the fields
of its body, and in the Kotlin dialect with those of its parameters before them; if no other class
of the source has its name, it is reported with the first field of each key.

What stands in the groups of the header does not matter, nor does what stands before and behind the
class, as long as the header can be told from the text before it. -/
theorem declared_header {pre body : Text} (hpre : startsAfresh ["class"] pre)
    (hmember : isMember pre.reverse = false) (henum : wordBefore pre.reverse ≠ "enum")
    (hbody : Balanced .braces body) (post : Text) :
    (∀ h : Java.HeaderSyntax,
      let source := pre ++ h.text body ++ post
      bodyStart? (h.tail ++ ascii ' ' :: (blockText body ++ post)) =
          (if h.isClear then some (blockText body ++ post) else none) ∧
        (h.isClear → ⟨h.name.1, Java.bodyFields body⟩ ∈ Java.declared source ∧
          (((Java.declared source).map ClassDecl.name).count h.name.1 = 1 →
            ⟨h.name.1, keepFirst (Java.bodyFields body)⟩ ∈ Java.classes source))) ∧
    (∀ h : Kotlin.HeaderSyntax,
      let source := pre ++ h.text body ++ post
      let fields := h.paramFields ++ Kotlin.bodyFields body
      bodyStart? (h.tail ++ ascii ' ' :: (blockText body ++ post)) =
          (if h.isClear then some (blockText body ++ post) else none) ∧
        (h.isClear → wordBefore pre.reverse ≠ "annotation" →
          ⟨h.name.1, fields⟩ ∈ Kotlin.declared source ∧
          (((Kotlin.declared source).map ClassDecl.name).count h.name.1 = 1 →
            ⟨h.name.1, keepFirst fields⟩ ∈ Kotlin.classes source))) := by
  constructor
  · intro h source
    refine ⟨by rw [bodyStart?_header h.clauseWords, h.all_words], fun hclear => ?_⟩
    have hmem := Java.HeaderSyntax.mem_declared hclear hbody hpre hmember henum post
    refine ⟨hmem, fun hcount => ?_⟩
    rw [Java.classes_eq_coalesce]
    exact mem_coalesce_of_mem_declared hmem hcount
  · intro h source fields
    refine ⟨by rw [bodyStart?_header h.clauseWords, h.all_words], fun hclear hmark => ?_⟩
    have hmem := Kotlin.HeaderSyntax.mem_declared hclear hbody hpre hmember henum hmark post
    refine ⟨hmem, fun hcount => ?_⟩
    rw [Kotlin.classes_eq_coalesce]
    exact mem_coalesce_of_mem_declared hmem hcount

/-- A generic class with a qualified superclass and an interface, and a class with a parameter, a
call of the constructor of its superclass and a property. -/
theorem declared_header_generic :
    (⟨"Box", keepFirst (Java.bodyFields " int x; ")⟩ : ClassDecl) ∈ Java.classes
        "public class Box<T> extends com.acme.Base<T> implements Serializable \x7b int x; \x7d\n" ∧
      (Java.bodyFields " int x; ").map Field.name = ["x"] ∧
      (⟨"Dog", keepFirst (Kotlin.parameterFields "val n: Int" ++
        Kotlin.bodyFields " val x: Int = 1 ")⟩ : ClassDecl) ∈ Kotlin.classes
          "public class Dog(val n: Int) : zoo.Animal(n) \x7b val x: Int = 1 \x7d\n" ∧
      (Kotlin.parameterFields "val n: Int" ++ Kotlin.bodyFields " val x: Int = 1 ").map Field.name =
        ["n", "x"] := by
  have hpre : startsAfresh ["class"] "public " := by decide
  have hbox := ((declared_header hpre (by decide +kernel) (by decide +kernel)
    (.of_plain (by decide) : Balanced .braces " int x; ") "\n").1
    { name := ⟨"Box", by decide⟩
      typeParameters := some ⟨"T", .of_plain (by decide)⟩
      superclass := some
        { name := ⟨[⟨"com", by decide⟩, ⟨"acme", by decide⟩], ⟨"Base", by decide⟩⟩
          typeArguments := some ⟨"T", .of_plain (by decide)⟩ }
      interfaces := [{ name := ⟨[], ⟨"Serializable", by decide⟩⟩ }] }).2 (by decide +kernel)
  have hdog := ((declared_header hpre (by decide +kernel) (by decide +kernel)
    (.of_plain (by decide) : Balanced .braces " val x: Int = 1 ") "\n").2
    { name := ⟨"Dog", by decide⟩
      params := some ⟨"val n: Int", .of_plain (by decide)⟩
      supertypes := [
        { name := ⟨[⟨"zoo", by decide⟩], ⟨"Animal", by decide⟩⟩
          callArguments := some ⟨"n", .of_plain (by decide)⟩ }] }).2 (by decide +kernel)
    (by decide +kernel)
  have hreadBox := hbox.2 (by decide +kernel)
  have hreadDog := hdog.2 (by decide +kernel)
  refine ⟨?_, by decide +kernel, ?_, by decide +kernel⟩
  · convert hreadBox using 2
    decide +kernel
  · convert hreadDog using 2
    · decide +kernel
    · rfl

/-- A package name that starts a declaration elsewhere hides the body: the first class is not
reported at all, and the second one without its property. -/
theorem body_lost_behind_qualifier :
    Java.classes "class A extends com.acme.data.Base \x7b int x; \x7d" = [] ∧
      (Kotlin.classes "class A : com.acme.data.Base() \x7b val x: Int = 1 \x7d").map
        (fun c => (c.name, c.fields.map Field.name)) = [(utf8 "A", [])] := by
  decide +kernel

end DtoSchema.Declaration
