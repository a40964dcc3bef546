import DtoSchema.Proofs.Declaration.Enumeration
import DtoSchema.Proofs.Declaration.Supertypes

/-!
# Classes without a body

A class without a body ends at its name, its parameters or its supertypes, and the next member of
the body around it follows.  Nothing marks the end, so the search for a body goes on into that
member.  It stops at a word that starts a declaration: `Sibling` is a member as the search sees it,
with the words in front of its block, and `exposedBlock?` is the block that the search reaches
through a list of members (`body?_siblings`).

Right behind the name and the type parameters, a constructor among the members is also taken for the
primary one of the class.  `params?` looks for parameters there, and `fieldsAfter_siblings` says
that this changes only the words in front of the block.

So `declared_bodiless` finds the fields of a class without a body: those of its own parameters, and
those of a block that an initializer or a secondary constructor exposes (`initializer_borrowed`).
-/

namespace DtoSchema.Declaration.Kotlin

open Text Source

/-! ### Gaps -/

/-- A run of gaps that is not empty. -/
abbrev Gap := {g : Text // g ≠ [] ∧ g.all isGap}

/-- A gap is a sign without a meaning in a header. -/
lemma of_isGap {b : UInt8} (hb : isGap b) :
    isIdentStart b = false ∧ isIdentPart b = false ∧ b ∉ utf8 "\x7b(<;\x7d=)" ∧ [b] ∈ gaps := by
  simp only [isGap, Bool.or_eq_true, beq_iff_eq] at hb
  rcases hb with (((rfl | rfl) | rfl) | rfl) | rfl <;> decide

/-- Gaps have no words. -/
lemma clauseWords_gaps {g : Text} (hg : g.all isGap) {s : Text} {ws : List Text}
    (hs : ClauseWords s ws) : ClauseWords (g ++ s) ws := by
  induction g with
  | nil => exact hs
  | cons b g ih =>
    simp only [List.all_cons, Bool.and_eq_true] at hg
    obtain ⟨hstart, -, hmem, -⟩ := of_isGap hg.1
    exact .sign hstart hmem (ih hg.2)

lemma Gap.head? (g : Gap) (s : Text) : (g.1 ++ s).head?.any isIdentPart = false := by
  obtain ⟨g, hne, hall⟩ := g
  obtain ⟨b, g, rfl⟩ := List.exists_cons_of_ne_nil hne
  simpa using (of_isGap (List.all_eq_true.mp hall b (by simp))).2.1

/-- An annotation ends at a gap with another annotation or a word behind it. -/
lemma Gap.endsMark (g : Gap) {s : Text} (hs : s.head?.any isMarkStart) :
    endsMark (g.1 ++ s) := by
  obtain ⟨c, s, rfl⟩ : ∃ c s', s = c :: s' := by
    cases s with
    | nil => simp at hs
    | cons c s => exact ⟨c, s, rfl⟩
  obtain ⟨-, hgap, hopen⟩ := of_isMarkStart (b := c) (by simpa using hs)
  have hskip := (skipGaps_append (t := c :: s) g.2.2 (by simp [hgap])).1
  obtain ⟨b, r, hg⟩ := List.exists_cons_of_ne_nil g.2.1
  have hb : isGap b := List.all_eq_true.mp g.2.2 b (by simp [hg])
  simp only [Declaration.endsMark, hskip]
  simp [hg, hb, hopen]

/-! ### Annotations and modifiers in front of a member -/

/-- The word may stand in front of the parameters of a primary constructor. -/
def isOpenWord (w : Text) : Bool := w ∈ modifiers || w == utf8 "constructor"

/-- What may stand in front of the keyword of a member. -/
inductive Lead where
  /-- A modifier. -/
  | word (w : {w : Text // isIdent w})
  /-- An annotation. -/
  | mark (target : Option Lexicon.plain.Name) (name : DottedName Lexicon.plain.isName)
      (arguments : Group (ascii '(') (ascii ')'))

namespace Lead

/-- The annotation or modifier as it is written. -/
def text : Lead → Text
  | word w => w.1
  | mark target name arguments => MarkSyntax.heading ⟨target, name, none⟩ ++ arguments.text

/-- The words that the search for a body sees. -/
def words : Lead → List Text
  | word w => [w.1]
  | mark target name _ => target.toList.map (·.1) ++ (name.qualifiers ++ [name.last]).map (·.1)

/-- It may stand in front of the parameters of a primary constructor. -/
def isOpen : Lead → Bool
  | word w => isOpenWord w.1
  | mark _ _ _ => true

/-- The words of a dotted name are its parts. -/
lemma clauseWords_name {L : Lexicon} (n : DottedName L.isName) :
    ClauseWords n.text ((n.qualifiers ++ [n.last]).map (·.1)) := by
  obtain ⟨qualifiers, last⟩ := n
  induction qualifiers with
  | nil =>
    have hlast : ClauseWords (last.1 ++ []) [last.1] := .word (isIdent_of_isName last.2) rfl .nil
    simpa [DottedName.text, DottedName.qualification] using hlast
  | cons w ws ih =>
    rw [DottedName.text_cons]
    exact .word (isIdent_of_isName w.2) rfl (.sign (by decide) (by decide) ih)

lemma clauseWords (l : Lead) : ClauseWords l.text l.words := by
  cases l with
  | word w => simpa [text, words] using ClauseWords.word w.2 rfl .nil
  | mark target name arguments =>
    have hname := (clauseWords_name name).append (arguments.clauseWords (by decide))
      (Or.inr (by simpa using arguments.head?_text (by decide) (s := []) rfl))
    rw [List.append_nil] at hname
    have htext : (mark target name arguments).text =
        ascii '@' :: (prefixed target ":" ++ (name.text ++ arguments.text)) := by
      simp [text, MarkSyntax.heading, utf8_at]
    rw [htext]
    refine .sign (by decide) (by decide) ?_
    cases target with
    | none => simpa [prefixed, words] using hname
    | some w =>
      have hword := ClauseWords.word (isIdent_of_isName w.2) rfl
        (.sign (show isIdentStart (ascii ':') = false by decide) (by decide) hname)
      simpa [prefixed, words, utf8_colon] using hword

lemma head?_text (l : Lead) (t : Text) : (l.text ++ t).head?.any isMarkStart := by
  cases l with
  | word w =>
    have hw := head?_isIdentStart_of_isIdent w.2
    cases hcase : w.1 with
    | nil => simp [hcase] at hw
    | cons b s => simpa [text, hcase] using isMarkStart_of_isIdentStart (by simpa [hcase] using hw)
  | mark target name arguments =>
    simp [text, MarkSyntax.heading, utf8_at, isMarkStart]

/-- An annotation is read as a whole. -/
lemma exists_read? (target : Option Lexicon.plain.Name) (name : DottedName Lexicon.plain.isName)
    (arguments : Group (ascii '(') (ascii ')')) {t : Text} (ht : endsMark t) :
    ∃ a, Mark.read? ((mark target name arguments).text ++ t) = some a ∧
      a.text = (mark target name arguments).text := by
  rw [text, List.append_assoc]
  cases arguments with
  | none =>
    obtain ⟨hpart, hcolon⟩ := head?_of_endsMark ht
    have hnone : readBalanced? (ascii '(') (ascii ')') (skipGaps t) = none := by
      have hopen : (skipGaps t).head? ≠ some (ascii '(') := by simp_all [Declaration.endsMark]
      cases hcase : skipGaps t with
      | nil => rfl
      | cons b s =>
        have hb : b ≠ ascii '(' := by simpa [hcase] using hopen
        simp [readBalanced?, hb]
    have hread := MarkSyntax.read?_heading ⟨target, name, none⟩ hpart hcolon
    simp only [hnone] at hread
    exact ⟨_, hread, by simp [Group.text]⟩
  | some g =>
    have hgap : isGap (ascii '(') = false := by decide
    have hrest : Group.text (some g) ++ t = ascii '(' :: (g.1 ++ ascii ')' :: t) := by
      simp [Group.text]
    have hcolon : ascii '(' ≠ ascii ':' := by decide
    have hpart : (ascii '(' :: (g.1 ++ ascii ')' :: t)).head?.any isNamePart = false := rfl
    have hread := MarkSyntax.read?_heading ⟨target, name, none⟩ hpart (by simpa using hcolon)
    have hskip : skipGaps (ascii '(' :: (g.1 ++ ascii ')' :: t)) =
        ascii '(' :: (g.1 ++ ascii ')' :: t) := by simp [skipGaps, hgap]
    rw [hskip, readBalanced?_nested (by decide) g.2] at hread
    rw [hrest]
    exact ⟨_, hread, by simp [Group.text, hgap, utf8_closeParen]⟩

end Lead

/-- Annotations and modifiers, each with a gap behind it. -/
abbrev Leads := List (Lead × Gap)

namespace Leads

/-- The annotations and modifiers as they are written. -/
def text (ls : Leads) : Text := ls.flatMap fun l => l.1.text ++ l.2.1

/-- The words that the search for a body sees. -/
def words (ls : Leads) : List Text := ls.flatMap (·.1.words)

/-- All of them may stand in front of the parameters of a primary constructor. -/
def isOpen (ls : Leads) : Bool := ls.all (·.1.isOpen)

lemma text_cons (l : Lead × Gap) (ls : Leads) (t : Text) :
    text (l :: ls) ++ t = l.1.text ++ (l.2.1 ++ (ls.text ++ t)) := by
  simp [text]

lemma clauseWords (ls : Leads) {s : Text} {ws : List Text} (h : ClauseWords s ws) :
    ClauseWords (ls.text ++ s) (ls.words ++ ws) := by
  induction ls with
  | nil => exact h
  | cons l ls ih =>
    have hwords : words (l :: ls) ++ ws = l.1.words ++ (words ls ++ ws) := by simp [words]
    rw [text_cons, hwords]
    exact l.1.clauseWords.append (clauseWords_gaps l.2.2.2 ih) (Or.inr (l.2.head? _))

lemma head?_text (ls : Leads) {t : Text} (ht : t.head?.any isIdentStart) :
    (ls.text ++ t).head?.any isMarkStart := by
  cases ls with
  | nil =>
    cases t with
    | nil => simp at ht
    | cons b t => exact isMarkStart_of_isIdentStart (by simpa using ht)
  | cons l ls =>
    rw [text_cons]
    exact l.1.head?_text _

end Leads

/-! ### Parameters behind a name -/

/-- The parameters behind a name and its type parameters, and the text after them. -/
def params? (s : Text) : Option (Text × Text) :=
  (leadingMarks? gaps isOpenWord s).bind fun x => readBalanced? (ascii '(') (ascii ')') x.2

lemma params?_gaps {g : Text} (hg : g.all isGap) (s : Text) : params? (g ++ s) = params? s := by
  induction g with
  | nil => rfl
  | cons b g ih =>
    simp only [List.all_cons, Bool.and_eq_true] at hg
    have hpass : leadingMarks? gaps isOpenWord ([b] ++ (g ++ s)) =
        leadingMarks? gaps isOpenWord (g ++ s) :=
      leadingMarks?_blank (by decide) (of_isGap hg.1).2.2.2 (by simp) (g ++ s)
    rw [← ih hg.2, List.cons_append, ← List.singleton_append, params?, hpass, params?]

/-- A word is passed if it may stand in front of the parameters, and there are none otherwise. -/
lemma params?_word {w t : Text} (hw : isIdent w) (ht : t.head?.any isIdentPart = false) :
    params? (w ++ t) = if isOpenWord w then params? t else none := by
  have hident := identAt_append hw ht
  obtain ⟨b, u, rfl⟩ := List.exists_cons_of_ne_nil (ne_nil_of_isIdent hw)
  have hb : isIdentStart b := by simpa using head?_isIdentStart_of_isIdent hw
  obtain ⟨hink, -, hopen⟩ := of_isMarkStart (isMarkStart_of_isIdentStart hb)
  have hat : b ≠ ascii '@' := ne_of_class hb (by decide)
  have hwidth : leadingWidth gaps (b :: u ++ t) = 0 := leadingWidth_ink areBlank_gaps hink _
  split
  · next hmodifier =>
    rw [params?, leadingMarks?_word hwidth (by simpa using hat) hident (by simp) hmodifier, params?]
  · next hmodifier =>
    have hword : isOpenWord (identAt (b :: u ++ t)) = false := by
      rw [hident]
      simpa using hmodifier
    rw [params?, leadingMarks?_rest hwidth (by simpa using hat) hword]
    simp [readBalanced?, hopen]

/-- There are no parameters in front of a sign. -/
lemma params?_sign {b : UInt8} (hink : isInk b) (hstart : isIdentStart b = false)
    (hmem : b ∉ [ascii '@', ascii '(']) (s : Text) : params? (b :: s) = none := by
  have hat : b ≠ ascii '@' ∧ b ≠ ascii '(' := by simpa using hmem
  have hword : isOpenWord (identAt (b :: s)) = false := by
    rw [identAt_eq_nil hstart]
    decide
  rw [params?, leadingMarks?_stop areBlank_gaps hink hat.1 hword]
  simp [readBalanced?, hat.2]

lemma params?_group {params : Text} (h : Balanced (.single (ascii '(') (ascii ')')) params)
    (t : Text) : params? (ascii '(' :: (params ++ ascii ')' :: t)) = some (params, t) := by
  have hword : isOpenWord (identAt (ascii '(' :: (params ++ ascii ')' :: t))) = false := by
    rw [identAt_eq_nil (by decide)]
    decide
  rw [params?, leadingMarks?_stop areBlank_gaps (by decide) (by decide) hword]
  exact readBalanced?_nested (by decide) h t

/-- Annotations and modifiers are passed if all of them may stand in front of the parameters, and
there are none otherwise. -/
lemma params?_leads (ls : Leads) {t : Text} (ht : t.head?.any isIdentStart) :
    params? (ls.text ++ t) = if ls.isOpen then params? t else none := by
  induction ls with
  | nil => rfl
  | cons l ls ih =>
    obtain ⟨l, g⟩ := l
    have hopen : Leads.isOpen ((l, g) :: ls) = (l.isOpen && Leads.isOpen ls) := rfl
    have hhead := Leads.head?_text ls ht
    rw [Leads.text_cons, hopen]
    cases l with
    | word w =>
      rw [Lead.text, params?_word w.2 (g.head? _), params?_gaps g.2.2, ih, Lead.isOpen]
      cases isOpenWord w.1 <;> simp
    | mark target name arguments =>
      obtain ⟨a, hread, htext⟩ := Lead.exists_read? target name arguments (g.endsMark hhead)
      obtain ⟨u, hu⟩ : ∃ u, a.text = ascii '@' :: u :=
        ⟨_, by rw [htext, Lead.text, MarkSyntax.heading]; rfl⟩
      have hwidth : leadingWidth gaps (a.text ++ (g.1 ++ (Leads.text ls ++ t))) = 0 := by
        rw [hu]
        exact leadingWidth_ink areBlank_gaps (by decide) _
      rw [← htext] at hread ⊢
      rw [params?, leadingMarks?_mark hwidth (by simp [hu]) (by simp [hu]) hread, Option.bind_map]
      exact (params?_gaps g.2.2 _).trans ih

/-- The parameters of a class are looked for behind its type parameters. -/
lemma primaryConstructor?_eq (g : Group (ascii '<') (ascii '>')) {s : Text}
    (hs : (skipGaps s).head? ≠ some (ascii '<')) :
    primaryConstructor? (g.text ++ s) = params? s := by
  have hafter : ∀ s', afterTypeParameters? (g.text ++ s) = some s' → params? s' = params? s →
      primaryConstructor? (g.text ++ s) = params? s := by
    intro s' hs' heq
    rw [← heq, primaryConstructor?, hs', Option.bind_eq_bind, Option.bind_some]
    rfl
  cases g with
  | none =>
    refine hafter (skipGaps s) ?_ ?_
    · rw [Group.text, Option.elim_none, List.nil_append, afterTypeParameters?]
      cases hcase : skipGaps s with
      | nil => rfl
      | cons b r =>
        have hb : b ≠ ascii '<' := by simpa [hcase] using hs
        simp [hb]
    · have hgaps : (s.takeWhile isGap).all isGap := List.all_takeWhile
      conv_rhs => rw [← List.takeWhile_append_dropWhile (p := isGap) (l := s)]
      exact (params?_gaps hgaps _).symm
  | some types =>
    refine hafter s ?_ rfl
    have hgap : isGap (ascii '<') = false := by decide
    have hread := readBalanced?_nested (by decide) types.2 s
    simp [Group.text, afterTypeParameters?, skipGaps, hgap, hread]

/-! ### What goes on behind a name -/

/-- Neither a name nor type parameters go on here. -/
def isApart (s : Text) : Bool :=
  !s.head?.any isIdentPart && (skipGaps s).head? != some (ascii '<')

lemma head?_of_isApart {s : Text} (h : isApart s) : s.head?.any isIdentPart = false := by
  simp only [isApart, Bool.and_eq_true] at h
  simpa using h.1

lemma skipGaps_of_isApart {s : Text} (h : isApart s) :
    (skipGaps s).head? ≠ some (ascii '<') := by
  simp only [isApart, Bool.and_eq_true] at h
  simpa using h.2

lemma isApart_gaps {g s : Text} (hg : g.all isGap)
    (hs : s.head?.all fun b => !isGap b && b != ascii '<')
    (hne : g ≠ [] ∨ s.head?.any isIdentPart = false) : isApart (g ++ s) := by
  have hhead : (g ++ s).head?.any isIdentPart = false := by
    cases g with
    | nil => simpa using hne
    | cons b g => exact Gap.head? ⟨b :: g, by simp, hg⟩ s
  have hskip : (skipGaps (g ++ s)).head? ≠ some (ascii '<') := by
    cases s with
    | nil => simp [skipGaps, List.dropWhile_eq_nil_iff.mpr (List.all_eq_true.mp hg)]
    | cons b s =>
      have hb : isGap b = false ∧ b ≠ ascii '<' := by simpa using hs
      simp [(skipGaps_append (t := b :: s) hg (by simp [hb.1])).1, hb.2]
  rw [isApart, hhead]
  simpa using hskip

/-- A word or an annotation behind a gap is no part of the name. -/
lemma Gap.isApart (g : Gap) {s : Text} (hs : s.head?.any isMarkStart) :
    Kotlin.isApart (g.1 ++ s) := by
  refine isApart_gaps g.2.2 ?_ (Or.inl g.2.1)
  cases s with
  | nil => rfl
  | cons b s =>
    have hb : isMarkStart b := by simpa using hs
    have hangle : b ≠ ascii '<' := ne_of_class hb (by decide)
    simp [(of_isMarkStart hb).2.1, hangle]

/-! ### Constructors -/

/-- A constructor that is written with its keyword. -/
structure ConstructorSyntax where
  /-- The gap in front. -/
  gap : Gap
  /-- The annotations and modifiers. -/
  leads : Leads
  /-- The gaps behind the keyword. -/
  space : Gaps
  /-- The parameters. -/
  params : {t : Text // Balanced (.single (ascii '(') (ascii ')')) t}

namespace ConstructorSyntax

variable (k : ConstructorSyntax)

/-- The constructor as it is written. -/
def text : Text :=
  k.gap.1 ++ (k.leads.text ++ (utf8 "constructor" ++
    (k.space.1 ++ ascii '(' :: (k.params.1 ++ [ascii ')']))))

/-- The words that the search for a body sees. -/
def words : List Text := k.leads.words ++ [utf8 "constructor"]

lemma text_append (s : Text) :
    k.text ++ s = k.gap.1 ++ (k.leads.text ++ (utf8 "constructor" ++
      (k.space.1 ++ ascii '(' :: (k.params.1 ++ ascii ')' :: s)))) := by
  simp [text]

lemma head?_space (s : Text) : (k.space.1 ++ ascii '(' :: s).head?.any isIdentPart = false :=
  head?_of_isApart (isApart_gaps k.space.2 (by simp; decide) (Or.inr rfl))

lemma isApart_text (s : Text) : isApart (k.text ++ s) := by
  rw [text_append]
  exact k.gap.isApart (Leads.head?_text k.leads rfl)

lemma clauseWords {s : Text} {ws : List Text} (h : ClauseWords s ws) :
    ClauseWords (k.text ++ s) (k.words ++ ws) := by
  have hparams := clauseWords_gaps k.space.2 (.group (by decide) k.params.2 h)
  have hkeyword := ClauseWords.word (w := utf8 "constructor") (by decide) (k.head?_space _) hparams
  rw [text_append, words, List.append_assoc]
  exact clauseWords_gaps k.gap.2.2 (Leads.clauseWords k.leads hkeyword)

/-- The parameters are those of a primary constructor, if only annotations and modifiers of one
stand in front of the keyword. -/
lemma params?_text (s : Text) :
    params? (k.text ++ s) = if k.leads.isOpen then some (k.params.1, s) else none := by
  have hkeyword : isOpenWord (utf8 "constructor") := by decide
  rw [text_append, params?_gaps k.gap.2.2, params?_leads _ rfl,
    params?_word (by decide) (k.head?_space _), if_pos hkeyword, params?_gaps k.space.2,
    params?_group k.params.2]

end ConstructorSyntax

/-! ### Clauses of a header -/

/-- A part of a header without a body, such as a list of supertypes. -/
structure Clause where
  /-- The part as it is written. -/
  text : Text
  /-- The words that the search for a body sees. -/
  words : List Text
  /-- They are the words of the text. -/
  spelled : ClauseWords text words

/-- The search for a body passes over a clause, unless one of its words starts a declaration. -/
lemma body?_clauseWords {s : Text} {ws : List Text} (h : ClauseWords s ws) {t : Text}
    (ht : t.head?.any isIdentPart = false) :
    body? (s ++ t) = if ws.all (· ∉ declarationWords) then body? t else none := by
  rw [body?, bodyStart?_clauseWords h ht]
  split
  · rfl
  · rfl

/-- What stands behind the name and the parameters of a class. -/
inductive Heritage where
  /-- Supertypes, and bounds of the type parameters behind them. -/
  | supertypes (space : Gaps) (clause : Clause)
  /-- Bounds of the type parameters alone. -/
  | bounds (gap space : Gap) (clause : Clause)

namespace Heritage

/-- The clause as it is written. -/
def text : Heritage → Text
  | supertypes space clause => space.1 ++ ascii ':' :: clause.text
  | bounds gap space clause => gap.1 ++ (utf8 "where" ++ (space.1 ++ clause.text))

/-- The words that the search for a body sees. -/
def words : Heritage → List Text
  | supertypes _ clause => clause.words
  | bounds _ _ clause => utf8 "where" :: clause.words

lemma isApart_text (h : Heritage) (s : Text) : isApart (h.text ++ s) := by
  cases h with
  | supertypes space clause =>
    rw [text, List.append_assoc, List.cons_append]
    exact isApart_gaps space.2 (by simp; decide) (Or.inr rfl)
  | bounds gap space clause =>
    rw [text, List.append_assoc, List.append_assoc]
    exact gap.isApart rfl

lemma clauseWords (h : Heritage) : ClauseWords h.text h.words := by
  cases h with
  | supertypes space clause =>
    exact clauseWords_gaps space.2 (.sign (by decide) (by decide) clause.spelled)
  | bounds gap space clause =>
    exact clauseWords_gaps gap.2.2 (.word (by decide) (space.head? _)
      (clauseWords_gaps space.2.2 clause.spelled))

/-- No parameters stand in front of it. -/
lemma params?_text (h : Heritage) (s : Text) : params? (h.text ++ s) = none := by
  cases h with
  | supertypes space clause =>
    rw [text, List.append_assoc, List.cons_append, params?_gaps space.2]
    exact params?_sign (by decide) (by decide) (by decide) _
  | bounds gap space clause =>
    have hhead : (space.1 ++ clause.text ++ s).head?.any isIdentPart = false := by
      rw [List.append_assoc]
      exact space.head? _
    rw [text, List.append_assoc, List.append_assoc, params?_gaps gap.2.2,
      params?_word (by decide) hhead, if_neg (by decide)]

end Heritage

/-! ### Members behind a class -/

/-- The words that start declarations are identifiers. -/
lemma isIdent_of_mem_declarationWords {w : Text} (hw : w ∈ declarationWords) : isIdent w := by
  have hall : ∀ w ∈ declarationWords, isIdent w := by decide
  exact hall w hw

/-- The content of a block. -/
abbrev BlockContent := {b : Text // Balanced .braces b}

lemma head?_block (space : Gaps) (block : BlockContent) (s : Text) :
    (space.1 ++ blockText block.1 ++ s).head?.any isIdentPart = false := by
  rw [List.append_assoc]
  exact head?_of_isApart (isApart_gaps space.2 (by simp [blockText]; decide) (Or.inr rfl))

lemma body?_block (space : Gaps) (block : BlockContent) (s : Text) :
    body? (space.1 ++ (blockText block.1 ++ s)) = some block.1 := by
  have hspace : ClauseWords (space.1 ++ []) [] := clauseWords_gaps space.2 .nil
  have hblock : blockText block.1 ++ s = ascii '\x7b' :: (block.1 ++ ascii '\x7d' :: s) := by
    simp [blockText]
  rw [List.append_nil] at hspace
  rw [hblock, body?_clauseWords hspace rfl]
  simp [body?, bodyStart?, bodyStartFrom?, readBalanced?_nested (by decide) block.2]

/-- A member that stands behind a class in the same body. -/
inductive Sibling where
  /-- A declaration with a keyword: a property, a function, a class or an object. -/
  | declaration (gap : Gap) (leads : Leads) (word : {w : Text // w ∈ declarationWords})
      (rest : {s : Text // s.head?.any isIdentPart = false})
  /-- An initializer. -/
  | initializer (gap : Gap) (leads : Leads) (space : Gaps) (block : BlockContent)
  /-- A secondary constructor; it cannot declare properties. -/
  | secondary (k : ConstructorSyntax) (plain : parameterFields k.params.1 = []) (clause : Clause)
      (block : Option (Gaps × BlockContent))

namespace Sibling

/-- The member up to its block or, in a declaration, up to its keyword. -/
def before : Sibling → Text
  | declaration gap leads word _ => gap.1 ++ (leads.text ++ word.1)
  | initializer gap leads _ _ => gap.1 ++ (leads.text ++ utf8 "init")
  | secondary k _ clause _ => k.text ++ clause.text

/-- The rest of the member. -/
def behind : Sibling → Text
  | declaration _ _ _ rest => rest.1
  | initializer _ _ space block => space.1 ++ blockText block.1
  | secondary _ _ _ block => block.elim [] fun b => b.1.1 ++ blockText b.2.1

/-- The member as it is written. -/
def text (m : Sibling) : Text := m.before ++ m.behind

/-- The block of a member that is no declaration with a keyword. -/
def block? : Sibling → Option Text
  | declaration _ _ _ _ => none
  | initializer _ _ _ block => some block.1
  | secondary _ _ _ block => block.map (·.2.1)

/-- The member is a declaration with a keyword. -/
def isDeclaration : Sibling → Bool
  | declaration _ _ _ _ => true
  | initializer _ _ _ _ => false
  | secondary _ _ _ _ => false

/-- The words that the search for a body sees in front of the block.  Right behind the name of a
class, a constructor is taken for the primary one. -/
def words (bare : Bool) : Sibling → List Text
  | declaration _ leads word _ => leads.words ++ [word.1]
  | initializer _ leads _ _ => leads.words ++ [utf8 "init"]
  | secondary k _ clause _ => (if bare && k.leads.isOpen then [] else k.words) ++ clause.words

variable (m : Sibling)

lemma isApart_text (s : Text) : isApart (m.text ++ s) := by
  cases m with
  | declaration gap leads word rest =>
    have hword : isIdent word.1 := isIdent_of_mem_declarationWords word.2
    have hhead := head?_append_any (head?_isIdentStart_of_isIdent hword) (rest.1 ++ s)
    simpa [text, before, behind] using gap.isApart (Leads.head?_text leads hhead)
  | initializer gap leads space block =>
    have hhead : (utf8 "init" ++ (space.1 ++ (blockText block.1 ++ s))).head?.any isIdentStart :=
      rfl
    simpa [text, before, behind] using gap.isApart (Leads.head?_text leads hhead)
  | secondary k plain clause block =>
    rw [text, before, List.append_assoc, List.append_assoc]
    exact k.isApart_text _

lemma clauseWords : ClauseWords m.before (m.words false) := by
  have hlead : ∀ (gap : Gap) (leads : Leads) (w : Text), isIdent w →
      ClauseWords (gap.1 ++ (leads.text ++ w)) (leads.words ++ [w]) := by
    intro gap leads w hw
    have hword : ClauseWords (w ++ []) [w] := .word hw rfl .nil
    rw [List.append_nil] at hword
    exact clauseWords_gaps gap.2.2 (Leads.clauseWords leads hword)
  cases m with
  | declaration gap leads word rest =>
    exact hlead gap leads word.1 (isIdent_of_mem_declarationWords word.2)
  | initializer gap leads space block => exact hlead gap leads _ (by decide)
  | secondary k plain clause block => exact k.clauseWords clause.spelled

/-- The rest of a member does not go on with a word. -/
lemma head?_behind {s : Text} (hs : s.head?.any isIdentPart = false) :
    (m.behind ++ s).head?.any isIdentPart = false := by
  cases m with
  | declaration gap leads word rest =>
    cases hrest : rest.1 with
    | nil => simpa [behind, hrest] using hs
    | cons b r => simpa [behind, hrest] using rest.2
  | initializer gap leads space block => exact head?_block space block s
  | secondary k plain clause block =>
    cases block with
    | none => exact hs
    | some b => exact head?_block b.1 b.2 s

/-- Where no keyword of a declaration stands in front of the rest, a body is taken from there. -/
lemma body?_behind (hm : m.isDeclaration = false) (s : Text) :
    body? (m.behind ++ s) = m.block?.or (body? s) := by
  cases m with
  | declaration gap leads word rest => simp [isDeclaration] at hm
  | initializer gap leads space block =>
    rw [behind, List.append_assoc, body?_block]
    rfl
  | secondary k plain clause block =>
    cases block with
    | none => rfl
    | some b =>
      rw [behind, Option.elim_some, List.append_assoc, body?_block]
      rfl

/-- The search for a body finds the block of a member, or goes on behind the member if there is
none, unless it meets a word that starts a declaration before. -/
lemma body?_text {s : Text} (hs : s.head?.any isIdentPart = false) :
    body? (m.text ++ s) =
      if (m.words false).all (· ∉ declarationWords) then m.block?.or (body? s) else none := by
  rw [text, List.append_assoc, body?_clauseWords m.clauseWords (m.head?_behind hs)]
  split
  · next hclear =>
    refine m.body?_behind ?_ s
    cases m with
    | declaration gap leads word rest => simp [words, word.2] at hclear
    | initializer gap leads space block => rfl
    | secondary k plain clause block => rfl
  · rfl

/-- No parameters stand in front of another keyword than that of a constructor. -/
lemma params?_keyword (gap : Gap) (leads : Leads) {w t : Text} (hw : isIdent w)
    (hopen : isOpenWord w = false) (ht : t.head?.any isIdentPart = false) :
    params? (gap.1 ++ (leads.text ++ (w ++ t))) = none := by
  have hhead := head?_append_any (head?_isIdentStart_of_isIdent hw) t
  rw [params?_gaps gap.2.2, params?_leads _ hhead, params?_word hw ht, hopen]
  simp

end Sibling

/-- Members as they are written. -/
def siblingsText (ms : List Sibling) : Text := ms.flatMap Sibling.text

lemma siblingsText_cons (m : Sibling) (ms : List Sibling) (t : Text) :
    siblingsText (m :: ms) ++ t = m.text ++ (siblingsText ms ++ t) := by
  simp [siblingsText]

/-- Nothing follows, or the brace that closes the body around. -/
def endsBody (t : Text) : Bool := (skipGaps t).head?.all (· == ascii '\x7d')

/-- The block that the search for a body finds in members: that of the first one that has a block,
if no word in front of it starts a declaration. -/
def exposedBlock? : Bool → List Sibling → Option Text
  | _, [] => none
  | bare, m :: ms =>
    if (m.words bare).all (· ∉ declarationWords) then m.block?.or (exposedBlock? false ms)
    else none

section Siblings

variable {t : Text} (ht : endsBody t)

include ht

/-- At the end of a body stand gaps, and nothing or a brace behind them. -/
lemma exists_of_endsBody :
    ∃ g r : Text, t = g ++ r ∧ g.all isGap ∧ (r = [] ∨ ∃ u, r = ascii '\x7d' :: u) := by
  refine ⟨t.takeWhile isGap, skipGaps t, List.takeWhile_append_dropWhile.symm,
    List.all_takeWhile, ?_⟩
  cases hcase : skipGaps t with
  | nil => exact Or.inl rfl
  | cons b u =>
    have hb : b = ascii '\x7d' := by simpa [endsBody, hcase] using ht
    exact Or.inr ⟨u, by rw [hb]⟩

lemma isApart_end : isApart t := by
  obtain ⟨g, r, rfl, hg, rfl | ⟨u, rfl⟩⟩ := exists_of_endsBody ht
  · exact isApart_gaps hg rfl (Or.inr rfl)
  · exact isApart_gaps hg (by simp; decide) (Or.inr rfl)

lemma body?_end : body? t = none := by
  obtain ⟨g, r, rfl, hg, hr⟩ := exists_of_endsBody ht
  have hwords : ClauseWords (g ++ []) [] := clauseWords_gaps hg .nil
  rw [List.append_nil] at hwords
  obtain rfl | ⟨u, rfl⟩ := hr
  · exact body?_clauseWords hwords rfl
  · exact body?_clauseWords hwords rfl

lemma params?_end : params? t = none := by
  obtain ⟨g, r, rfl, hg, hr⟩ := exists_of_endsBody ht
  rw [params?_gaps hg]
  obtain rfl | ⟨u, rfl⟩ := hr
  · rfl
  · exact params?_sign (by decide) (by decide) (by decide) u

lemma isApart_siblings (ms : List Sibling) : isApart (siblingsText ms ++ t) := by
  cases ms with
  | nil => exact isApart_end ht
  | cons m ms =>
    rw [siblingsText_cons]
    exact m.isApart_text _

/-- The search for a body in front of members finds the block that they expose. -/
lemma body?_siblings (ms : List Sibling) :
    body? (siblingsText ms ++ t) = exposedBlock? false ms := by
  induction ms with
  | nil => exact body?_end ht
  | cons m ms ih =>
    have hhead := head?_of_isApart (isApart_siblings ht ms)
    rw [siblingsText_cons, m.body?_text hhead, exposedBlock?, ih]

end Siblings

/-! ### Fields behind a name -/

lemma fieldsAfter_of_some {s params rest : Text} (h : primaryConstructor? s = some (params, rest)) :
    fieldsAfter s = parameterFields params ++ (body? rest).elim [] bodyFields := by
  simp only [fieldsAfter, h, Option.getD_some]
  cases body? rest <;> rfl

lemma fieldsAfter_of_none {s : Text} (h : primaryConstructor? s = none) :
    fieldsAfter s = (body? s).elim [] bodyFields := by
  simp only [fieldsAfter, h, Option.getD_none]
  cases body? s <;> rfl

/-- Members right behind the name and the type parameters of a class: a constructor among them is
taken for the primary one. -/
lemma fieldsAfter_siblings (g : Group (ascii '<') (ascii '>')) (ms : List Sibling) {t : Text}
    (ht : endsBody t) :
    fieldsAfter (g.text ++ (siblingsText ms ++ t)) =
      (exposedBlock? true ms).elim [] bodyFields := by
  have hapart := isApart_siblings ht ms
  have hparams := primaryConstructor?_eq g (skipGaps_of_isApart hapart)
  have hnone : params? (siblingsText ms ++ t) = none →
      fieldsAfter (g.text ++ (siblingsText ms ++ t)) =
        (exposedBlock? false ms).elim [] bodyFields := by
    intro h
    rw [fieldsAfter_of_none (hparams.trans h),
      body?_clauseWords (g.clauseWords (by decide)) (head?_of_isApart hapart), body?_siblings ht]
    rfl
  cases ms with
  | nil => exact hnone (params?_end ht)
  | cons m ms =>
    rw [siblingsText_cons] at hparams hnone ⊢
    have hhead := head?_of_isApart (isApart_siblings ht ms)
    cases m with
    | declaration gap leads word rest =>
      have hopen : ∀ w ∈ declarationWords, isOpenWord w = false := by decide
      refine hnone ?_
      simpa [Sibling.text, Sibling.before] using Sibling.params?_keyword gap leads
        (isIdent_of_mem_declarationWords word.2) (hopen word.1 word.2)
        (Sibling.head?_behind (.declaration gap leads word rest) hhead)
    | initializer gap leads space block =>
      refine hnone ?_
      simpa [Sibling.text, Sibling.before] using Sibling.params?_keyword gap leads
        (w := utf8 "init") (by decide) (by decide)
        (Sibling.head?_behind (.initializer gap leads space block) hhead)
    | secondary k plain clause block =>
      have hread := k.params?_text (clause.text ++
        ((Sibling.secondary k plain clause block).behind ++ (siblingsText ms ++ t)))
      have htext : (Sibling.secondary k plain clause block).text ++ (siblingsText ms ++ t) =
          k.text ++ (clause.text ++
            ((Sibling.secondary k plain clause block).behind ++ (siblingsText ms ++ t))) := by
        simp [Sibling.text, Sibling.before]
      rw [htext] at hparams hnone ⊢
      rw [hread] at hparams hnone
      by_cases hopen : k.leads.isOpen
      · rw [if_pos hopen] at hparams
        rw [fieldsAfter_of_some hparams, plain, List.nil_append,
          body?_clauseWords clause.spelled (Sibling.head?_behind _ hhead),
          Sibling.body?_behind _ rfl, body?_siblings ht]
        simp [exposedBlock?, Sibling.words, hopen]
      · rw [hnone (if_neg hopen)]
        simp [exposedBlock?, Sibling.words, hopen]

/-! ### Classes without a body -/

/-- A primary constructor. -/
inductive Primary where
  /-- Parameters alone. -/
  | plain (space : Gaps) (params : {t : Text // Balanced (.single (ascii '(') (ascii ')')) t})
  /-- Parameters behind the keyword, with annotations and modifiers. -/
  | keyword (k : ConstructorSyntax) (isOpen : k.leads.isOpen)

namespace Primary

/-- The constructor as it is written. -/
def text : Primary → Text
  | plain space params => space.1 ++ ascii '(' :: (params.1 ++ [ascii ')'])
  | keyword k _ => k.text

/-- The parameters. -/
def params : Primary → Text
  | plain _ params => params.1
  | keyword k _ => k.params.1

lemma isApart_text (p : Primary) (s : Text) : isApart (p.text ++ s) := by
  cases p with
  | plain space params =>
    rw [text, List.append_assoc, List.cons_append]
    exact isApart_gaps space.2 (by simp; decide) (Or.inr rfl)
  | keyword k isOpen => exact k.isApart_text s

lemma params?_text (p : Primary) (s : Text) : params? (p.text ++ s) = some (p.params, s) := by
  cases p with
  | plain space params =>
    have htext : (plain space params).text ++ s =
        space.1 ++ ascii '(' :: (params.1 ++ ascii ')' :: s) := by simp [text]
    rw [htext, params?_gaps space.2, params?_group params.2]
    rfl
  | keyword k isOpen =>
    rw [text, k.params?_text, if_pos isOpen]
    rfl

end Primary

/-- A class without a body. -/
structure Bodiless where
  /-- The name. -/
  name : {n : Text // isClassName n}
  /-- The type parameters. -/
  typeParameters : Group (ascii '<') (ascii '>') := none
  /-- The primary constructor. -/
  primary : Option Primary := none
  /-- The supertypes and the bounds of the type parameters. -/
  heritage : Option Heritage := none

namespace Bodiless

variable (c : Bodiless)

/-- What stands behind the name. -/
def tail : Text :=
  c.typeParameters.text ++ (c.primary.elim [] Primary.text ++ c.heritage.elim [] Heritage.text)

/-- The class as it is written. -/
def text : Text := "class " ++ c.name.1 ++ c.tail

/-- The properties among the parameters of the primary constructor. -/
def paramFields : List Field := c.primary.elim [] fun p => parameterFields p.params

/-- Nothing stands behind the name and the type parameters. -/
def isBare : Bool := c.primary.isNone && c.heritage.isNone

/-- No word behind the parameters starts a declaration. -/
def isClear : Bool := c.heritage.all fun h => h.words.all (· ∉ declarationWords)

/-- The block of a member behind the class that is read as its body. -/
def borrowed? (ms : List Sibling) : Option Text :=
  if c.isClear then exposedBlock? c.isBare ms else none

/-- What stands behind the parameters is passed in the search for a body, unless a word of it starts
a declaration. -/
lemma body?_heritage {s : Text} (hs : s.head?.any isIdentPart = false) :
    body? (c.heritage.elim [] Heritage.text ++ s) = if c.isClear then body? s else none := by
  rw [isClear]
  cases c.heritage with
  | none => rfl
  | some h => exact body?_clauseWords h.clauseWords hs

variable {t : Text} (ht : endsBody t)

include ht

/-- What stands behind the name and the type parameters is no part of them. -/
lemma isApart_rest (ms : List Sibling) :
    isApart (c.heritage.elim [] Heritage.text ++ (siblingsText ms ++ t)) ∧
      isApart (c.primary.elim [] Primary.text ++
        (c.heritage.elim [] Heritage.text ++ (siblingsText ms ++ t))) := by
  have hheritage : isApart (c.heritage.elim [] Heritage.text ++ (siblingsText ms ++ t)) := by
    cases c.heritage with
    | none => exact isApart_siblings ht ms
    | some h => exact h.isApart_text _
  refine ⟨hheritage, ?_⟩
  cases c.primary with
  | none => exact hheritage
  | some p => exact p.isApart_text _

/-- The fields behind the name are those of the parameters and of the block that is borrowed. -/
lemma fieldsAfter_tail (ms : List Sibling) :
    fieldsAfter (c.tail ++ (siblingsText ms ++ t)) =
      c.paramFields ++ (c.borrowed? ms).elim [] bodyFields := by
  obtain ⟨hheritage, hprimary⟩ := c.isApart_rest ht ms
  have hparams := primaryConstructor?_eq c.typeParameters (skipGaps_of_isApart hprimary)
  have hbody : body? (c.heritage.elim [] Heritage.text ++ (siblingsText ms ++ t)) =
      if c.isClear then exposedBlock? false ms else none := by
    rw [c.body?_heritage (head?_of_isApart (isApart_siblings ht ms)), body?_siblings ht]
  rw [tail, paramFields, borrowed?, isBare, List.append_assoc, List.append_assoc]
  cases hcase : c.primary with
  | some p =>
    rw [hcase, Option.elim_some, p.params?_text] at hparams
    rw [Option.elim_some, fieldsAfter_of_some hparams, hbody]
    rfl
  | none =>
    rw [hcase, Option.elim_none, List.nil_append] at hparams
    cases hherit : c.heritage with
    | none =>
      have hclear : c.isClear := by simp [isClear, hherit]
      simpa [hclear] using fieldsAfter_siblings c.typeParameters ms ht
    | some h =>
      rw [hherit] at hparams hbody hheritage
      rw [Option.elim_some] at hparams hbody hheritage
      rw [h.params?_text] at hparams
      rw [Option.elim_none, List.nil_append, Option.elim_some, fieldsAfter_of_none hparams,
        body?_clauseWords (c.typeParameters.clauseWords (by decide)) (head?_of_isApart hheritage),
        hbody]
      rfl

/-- The class is declared with the fields of its parameters and of the block that is borrowed. -/
lemma mem_declared {pre : Text} (hpre : startsAfresh ["class"] pre)
    (hmember : isMember pre.reverse = false) (henum : wordBefore pre.reverse ≠ "enum")
    (hmark : wordBefore pre.reverse ≠ "annotation") (ms : List Sibling) :
    ⟨c.name.1, c.paramFields ++ (c.borrowed? ms).elim [] bodyFields⟩ ∈
      declared (pre ++ (c.text ++ (siblingsText ms ++ t))) := by
  have htext : pre ++ (c.text ++ (siblingsText ms ++ t)) =
      pre ++ ("class " ++ c.name.1 ++ (c.tail ++ (siblingsText ms ++ t))) := by
    simp [text]
  have hend : (c.tail ++ (siblingsText ms ++ t)).head?.any isIdentPart = false := by
    rw [tail, List.append_assoc, List.append_assoc]
    exact c.typeParameters.head?_text (by decide) (head?_of_isApart (c.isApart_rest ht ms).2)
  rw [htext, ← c.fieldsAfter_tail ht ms]
  exact mem_declared_class c.name.2 hpre hmember henum hmark hend

end Bodiless

/-- Only initializers and secondary constructors that stand before the next declaration expose a
block. -/
lemma exists_of_exposedBlock? {ms : List Sibling} {bare : Bool} {block : Text}
    (h : exposedBlock? bare ms = some block) :
    ∃ m ∈ ms.takeWhile (!·.isDeclaration), m.block? = some block := by
  induction ms generalizing bare with
  | nil => simp [exposedBlock?] at h
  | cons m ms ih =>
    rw [exposedBlock?, Option.ite_none_right_eq_some] at h
    obtain ⟨hclear, hblock⟩ := h
    have hm : m.isDeclaration = false := by
      cases m with
      | declaration gap leads word rest => simp [Sibling.words, word.2] at hclear
      | initializer gap leads space block => rfl
      | secondary k plain clause block => rfl
    rw [List.takeWhile_cons_of_pos (by simp [hm])]
    rcases Option.or_eq_some_iff.mp hblock with hown | ⟨-, hlater⟩
    · exact ⟨m, by simp, hown⟩
    · obtain ⟨m', hmem, hm'⟩ := ih hlater
      exact ⟨m', List.mem_cons_of_mem m hmem, hm'⟩

/-- A class without a body has the fields of its own primary constructor and of no declaration
behind it: a property, a function, an object or another class ends the search for a body at its
keyword, whatever its annotations, modifiers and blocks are.

The search does not stop at an initializer or a secondary constructor.  So a class borrows the block
of one that stands before the next declaration, and it has exactly its own fields if there is no
such block.  The statement says which block is borrowed, for each class, for all members behind it
and wherever the class stands in a source. -/
theorem declared_bodiless {pre : Text} (hpre : startsAfresh ["class"] pre)
    (hmember : isMember pre.reverse = false) (henum : wordBefore pre.reverse ≠ "enum")
    (hmark : wordBefore pre.reverse ≠ "annotation") (c : Bodiless) (ms : List Sibling) {t : Text}
    (ht : endsBody t) :
    let source := pre ++ (c.text ++ (siblingsText ms ++ t))
    let fields := c.paramFields ++ (c.borrowed? ms).elim [] bodyFields
    ⟨c.name.1, fields⟩ ∈ declared source ∧
      (((declared source).map ClassDecl.name).count c.name.1 = 1 →
        ⟨c.name.1, keepFirst fields⟩ ∈ classes source) ∧
      (∀ block, c.borrowed? ms = some block →
        ∃ m ∈ ms.takeWhile (!·.isDeclaration), m.block? = some block) ∧
      ((∀ m ∈ ms.takeWhile (!·.isDeclaration), m.block? = none) → fields = c.paramFields) := by
  intro source fields
  have hmem : ⟨c.name.1, fields⟩ ∈ declared source :=
    c.mem_declared ht hpre hmember henum hmark ms
  have hborrowed : ∀ block, c.borrowed? ms = some block →
      ∃ m ∈ ms.takeWhile (!·.isDeclaration), m.block? = some block := by
    intro block hblock
    rw [Bodiless.borrowed?, Option.ite_none_right_eq_some] at hblock
    exact exists_of_exposedBlock? hblock.2
  refine ⟨hmem, fun hcount => ?_, hborrowed, fun hnone => ?_⟩
  · rw [classes_eq_coalesce]
    exact mem_coalesce_of_mem_declared hmem hcount
  · have hno : c.borrowed? ms = none := by
      rw [Option.eq_none_iff_forall_ne_some]
      intro block hblock
      obtain ⟨m, hm, hown⟩ := hborrowed block hblock
      simp [hnone m hm] at hown
    simp only [fields, hno, Option.elim_none, List.append_nil]

/-- A function behind a class with a parameter: the class has its own property only. -/
theorem declared_bodiless_function :
    (⟨"Marker", keepFirst (parameterFields "val a: Int")⟩ : ClassDecl) ∈ classes
        ("class Outer \x7b\n  class Marker(val a: Int)\n" ++
          "  private fun f() \x7b\n    val x: Int = 1\n  \x7d\n\x7d\n") ∧
      (parameterFields "val a: Int").map Field.name = ["a"] := by
  have hpre : startsAfresh ["class"] "class Outer \x7b\n  " := by decide
  have ht : endsBody "\n\x7d\n" := by decide
  obtain ⟨-, hread, -, hown⟩ := declared_bodiless hpre (by decide +kernel) (by decide +kernel)
    (by decide +kernel)
    { name := ⟨"Marker", by decide⟩
      primary := some (.plain ⟨[], rfl⟩ ⟨"val a: Int", .of_plain (by decide)⟩) }
    [.declaration ⟨"\n  ", by decide⟩ [(.word ⟨"private", by decide⟩, ⟨" ", by decide⟩)]
      ⟨"fun", by decide⟩ ⟨" f() \x7b\n    val x: Int = 1\n  \x7d", by decide⟩] ht
  have hmarker := hread (by decide +kernel)
  rw [hown (by simp [Sibling.isDeclaration])] at hmarker
  refine ⟨?_, by decide +kernel⟩
  convert hmarker using 2
  · rfl
  · rfl

/-- A class without a body takes the block of the initializer behind it for its own. -/
theorem initializer_borrowed :
    (classes ("class Outer \x7b\n    class Marker\n    init \x7b\n" ++
        "        val x: Int = 1\n    \x7d\n\x7d\n")).map
        (fun c => (c.name, c.fields.map Field.name)) =
      [(utf8 "Outer", []), (utf8 "Marker", [utf8 "x"])] := by
  decide +kernel

end DtoSchema.Declaration.Kotlin
