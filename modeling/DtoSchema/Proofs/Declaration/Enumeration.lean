import DtoSchema.Proofs.Declaration.Header
import DtoSchema.Proofs.Declaration.MarkSyntax

/-!
# Enumerations

The body of an enumeration lists its constants with commas between them, and after a semicolon it
may declare members.  A constant has annotations, a name, arguments and a body.  Two scanners read
such a list: one looks for the semicolon and takes quotes for ordinary bytes, the other cuts at
commas and takes angle brackets for brackets.  `Kept` is the class of texts over which both pass as
a whole.

The main statement is that every enumeration whose arguments and bodies are `IsEnclosed` is read
with exactly the names of its constants, wherever it stands in a source.  That parentheses, square
brackets and braces match outside of literals does not suffice: an operator hides constants, and a
quoted parenthesis turns members into constants.
-/

namespace DtoSchema.Source

open Text

/-! ### Scanning for a semicolon -/

/-- Parentheses and braces. -/
def Brackets.blocks : Brackets := ⟨"(\x7b", ")\x7d"⟩

/-- The text with every quote written as a space. -/
def withoutQuotes (s : Text) : Text := s.map fun b => if isQuote b then ascii ' ' else b

@[simp] lemma withoutQuotes_append (s t : Text) :
    withoutQuotes (s ++ t) = withoutQuotes s ++ withoutQuotes t := List.map_append

@[simp] lemma length_withoutQuotes (s : Text) : (withoutQuotes s).length = s.length :=
  List.length_map _

/-- A text without quotes stays as it is. -/
lemma withoutQuotes_eq_self {s : Text} (h : s.all (!isQuote ·)) : withoutQuotes s = s := by
  induction s with
  | nil => rfl
  | cons b s ih =>
    simp only [List.all_cons, Bool.and_eq_true, Bool.not_eq_true'] at h
    have hs : withoutQuotes s = s := ih h.2
    simp only [withoutQuotes, List.map_cons, h.1, Bool.false_eq_true, if_false] at hs ⊢
    rw [hs]

/-- No quotes are left. -/
lemma isQuote_of_mem_withoutQuotes {s : Text} {b : UInt8} (h : b ∈ withoutQuotes s) :
    isQuote b = false := by
  obtain ⟨c, -, rfl⟩ := List.mem_map.mp h
  by_cases hc : isQuote c
  · rw [if_pos hc]
    decide
  · simp [hc]

/-- A byte that is neither a parenthesis nor a brace is passed, also a semicolon inside of some. -/
lemma semicolonFrom_cons {b : UInt8} {parens braces : ℕ} (hopen : b ∉ Brackets.blocks.opening)
    (hclose : b ∉ Brackets.blocks.closing) (hsemi : b = ascii ';' → ¬ (parens = 0 ∧ braces = 0))
    (s : Text) :
    semicolonFrom parens braces (b :: s) = (semicolonFrom parens braces s).map (· + 1) := by
  have hopening : Brackets.blocks.opening = [ascii '(', ascii '\x7b'] := by decide
  have hclosing : Brackets.blocks.closing = [ascii ')', ascii '\x7d'] := by decide
  simp only [hopening, List.mem_cons, List.not_mem_nil, or_false, not_or] at hopen
  simp only [hclosing, List.mem_cons, List.not_mem_nil, or_false, not_or] at hclose
  rw [semicolonFrom, if_neg hopen.1, if_neg hclose.1, if_neg hopen.2, if_neg hclose.2,
    if_neg fun h => hsemi h.1 h.2]

/-- The scan for a semicolon does not regard quotes. -/
lemma semicolonFrom_withoutQuotes (parens braces : ℕ) (s : Text) :
    semicolonFrom parens braces (withoutQuotes s) = semicolonFrom parens braces s := by
  have hquote : ∀ b, isQuote b = true →
      b ∉ Brackets.blocks.opening ∧ b ∉ Brackets.blocks.closing ∧ b ≠ ascii ';' :=
    fun b hb => ⟨notMem_of_class (by decide) hb, notMem_of_class (by decide) hb,
      ne_of_class hb (by decide)⟩
  induction s generalizing parens braces with
  | nil => rfl
  | cons b s ih =>
    by_cases hb : isQuote b
    · obtain ⟨hopen, hclose, hsemi⟩ := hquote b hb
      have hspace : withoutQuotes (b :: s) = ascii ' ' :: withoutQuotes s := by
        simp [withoutQuotes, hb]
      rw [hspace, semicolonFrom_cons (by decide) (by decide) (fun h => absurd h (by decide)),
        semicolonFrom_cons hopen hclose fun h => absurd h hsemi, ih]
    · have hself : withoutQuotes (b :: s) = b :: withoutQuotes s := by simp [withoutQuotes, hb]
      rw [hself, semicolonFrom, semicolonFrom]
      simp only [ih]

/-- The scan for a semicolon passes over a text without quotes whose parentheses and braces match,
if no semicolon stands outside of them or the scan is inside some itself. -/
lemma semicolonFrom_nested {sep : UInt8 → Bool} {s : Text} (hs : Nested .blocks sep s)
    (hquote : ∀ b ∈ s, isQuote b = false) (parens braces : ℕ)
    (hsep : parens = 0 → braces = 0 → sep (ascii ';') = true) (t : Text) :
    semicolonFrom parens braces (s ++ t) =
      (semicolonFrom parens braces t).map (· + s.length) := by
  induction hs generalizing parens braces t with
  | nil => simp
  | @byte sep b s hb hb' _ ih =>
    simp only [Brackets.isPlain, Bool.and_eq_true, decide_eq_true_eq] at hb
    have hsemi : b = ascii ';' → ¬ (parens = 0 ∧ braces = 0) := by
      rintro rfl ⟨hp, hq⟩
      simp [hsep hp hq] at hb'
    rw [List.cons_append, semicolonFrom_cons hb.1.2 hb.2 hsemi,
      ih (fun c hc => hquote c (by simp [hc])) _ _ hsep, Option.map_map]
    rfl
  | @literal sep q l s hq _ _ _ => simp [hquote q (by simp)] at hq
  | @group sep o c i s hp _ _ ihi ih =>
    have hpair : (o = ascii '(' ∧ c = ascii ')') ∨ (o = ascii '\x7b' ∧ c = ascii '\x7d') := by
      have hpairs : Brackets.blocks.pairs =
          [(ascii '(', ascii ')'), (ascii '\x7b', ascii '\x7d')] := by decide
      simpa [hpairs] using hp
    have hinner : ∀ b ∈ i, isQuote b = false := fun b hb => hquote b (by simp [hb])
    have hafter : ∀ b ∈ s, isQuote b = false := fun b hb => hquote b (by simp [hb])
    have hcount : ∀ u : Option ℕ, Option.map (· + 1) (Option.map (· + i.length)
        (Option.map (· + 1) (Option.map (· + s.length) u))) =
          Option.map (· + (o :: (i ++ c :: s)).length) u := by
      intro u
      simp only [Option.map_map]
      congr 1
      funext n
      simp only [Function.comp_apply, List.length_cons, List.length_append]
      omega
    rw [List.cons_append, List.append_assoc, List.cons_append]
    rcases hpair with ⟨rfl, rfl⟩ | ⟨rfl, rfl⟩
    · rw [semicolonFrom, if_pos rfl, ihi hinner _ _ (by simp), semicolonFrom, if_neg (by decide),
        if_pos rfl, Nat.add_sub_cancel, ih hafter _ _ hsep, hcount]
    · rw [semicolonFrom, if_neg (by decide), if_neg (by decide), if_pos rfl, ihi hinner _ _ (by simp),
        semicolonFrom, if_neg (by decide), if_neg (by decide), if_neg (by decide), if_pos rfl,
        Nat.add_sub_cancel, ih hafter _ _ hsep, hcount]

/-- A semicolon is found behind a text that holds none outside of parentheses and braces. -/
lemma topLevelSemicolon?_append {s : Text}
    (hs : Nested .blocks (· == ascii ';') (withoutQuotes s)) (t : Text) :
    topLevelSemicolon? (s ++ ascii ';' :: t) = some s.length := by
  have hpass := semicolonFrom_nested hs (fun b hb => isQuote_of_mem_withoutQuotes hb) 0 0 (by simp)
    (withoutQuotes (ascii ';' :: t))
  rw [← withoutQuotes_append, semicolonFrom_withoutQuotes, semicolonFrom_withoutQuotes,
    length_withoutQuotes] at hpass
  rw [topLevelSemicolon?, hpass, semicolonFrom, if_neg (by decide), if_neg (by decide),
    if_neg (by decide), if_neg (by decide), if_pos ⟨rfl, rfl, rfl⟩]
  simp

/-- No semicolon is found in a text that holds none outside of parentheses and braces. -/
lemma topLevelSemicolon?_eq_none {s : Text}
    (hs : Nested .blocks (· == ascii ';') (withoutQuotes s)) : topLevelSemicolon? s = none := by
  have hpass := semicolonFrom_nested hs (fun b hb => isQuote_of_mem_withoutQuotes hb) 0 0 (by simp) []
  rwa [List.append_nil, semicolonFrom_withoutQuotes] at hpass

/-! ### Texts that both scanners keep together -/

/-- The text can stand inside parentheses or braces: brackets of every kind match outside of
literals, and parentheses and braces match also when quotes are ordinary bytes. -/
structure IsEnclosed (s : Text) : Prop where
  /-- Brackets of every kind match outside of literals. -/
  all : Balanced .all s
  /-- Parentheses and braces match when quotes are ordinary bytes. -/
  blocks : Balanced .blocks (withoutQuotes s)

/-- The text is passed as a whole by the cut at commas and by the search for a semicolon. -/
structure Kept (s : Text) : Prop where
  /-- No comma stands outside of brackets and literals. -/
  comma : Nested .all (· == ascii ',') s
  /-- No semicolon stands outside of parentheses and braces. -/
  semicolon : Nested .blocks (· == ascii ';') (withoutQuotes s)

namespace Kept

variable {s t : Text}

lemma nil : Kept [] := ⟨.nil, .nil⟩

/-- Two kept texts are kept together. -/
lemma append (hs : Kept s) (ht : Kept t) : Kept (s ++ t) where
  comma := hs.comma.append ht.comma
  semicolon := by
    rw [withoutQuotes_append]
    exact hs.semicolon.append ht.semicolon

/-- Bytes that are neither quotes nor brackets nor separators are kept. -/
lemma of_plain (h : s.all fun b => Brackets.all.isPlain b && b != ascii ',' && b != ascii ';') :
    Kept s := by
  have hbytes : ∀ b, (Brackets.all.isPlain b && b != ascii ',' && b != ascii ';') = true →
      isQuote b = false ∧ (Brackets.all.isPlain b && !(b == ascii ',')) = true ∧
        (Brackets.blocks.isPlain b && !(b == ascii ';')) = true := by
    simp only [Bool.and_eq_true, bne_iff_ne]
    rintro b ⟨⟨hplain, hcomma⟩, hsemi⟩
    have hblocks : Brackets.blocks.isPlain b := Brackets.isPlain_of_isPartOf (by decide) hplain
    have hquote : isQuote b = false := by
      simp only [Brackets.isPlain, Bool.and_eq_true, Bool.not_eq_true'] at hplain
      exact hplain.1.1
    exact ⟨hquote, by simp [hplain, hcomma], by simp [hblocks, hsemi]⟩
  refine ⟨.of_plain (all_mono (fun b hb => (hbytes b hb).2.1) h), ?_⟩
  rw [withoutQuotes_eq_self (all_mono (fun b hb => by simp [(hbytes b hb).1]) h)]
  exact .of_plain (all_mono (fun b hb => (hbytes b hb).2.2) h)

/-- Bytes of a class are kept if neither quotes nor brackets nor separators are in it. -/
lemma of_class {p : UInt8 → Bool} (hp : ([ascii '"', ascii '\''] ++ Brackets.all.opening ++
      Brackets.all.closing).all (!p ·) ∧ p (ascii ',') = false ∧ p (ascii ';') = false)
    (h : s.all p) : Kept s := by
  refine .of_plain (all_mono (fun b hb => ?_) h)
  simp [Brackets.isPlain_of_class hp.1 hb, ne_of_class hb hp.2.1, ne_of_class hb hp.2.2]

/-- What is enclosed in parentheses or braces is kept. -/
lemma enclose {o c : UInt8} (hp : (o, c) ∈ Brackets.blocks.pairs) (hs : IsEnclosed s) :
    Kept (o :: (s ++ [c])) := by
  have hbrackets : Brackets.blocks.pairs.all fun p =>
      p ∈ Brackets.all.pairs && !isQuote p.1 && !isQuote p.2 := by decide
  have hpair := List.all_eq_true.mp hbrackets (o, c) hp
  simp only [Bool.and_eq_true, decide_eq_true_eq, Bool.not_eq_true'] at hpair
  obtain ⟨⟨hall, ho⟩, hc⟩ := hpair
  have htext : withoutQuotes (o :: (s ++ [c])) = o :: (withoutQuotes s ++ [c]) := by
    simp [withoutQuotes, ho, hc]
  refine ⟨.enclose hall hs.all, ?_⟩
  rw [htext]
  exact .enclose hp hs.blocks

end Kept

end DtoSchema.Source

namespace DtoSchema.Declaration

open Text Source

/-! ### Constants -/

/-- The words that are names wherever no keyword is to be avoided. -/
def Lexicon.plain : Lexicon := ⟨[], fun _ => true⟩

/-- A run of gaps. -/
abbrev Gaps := {g : Text // g.all isGap}

/-- Gaps and an enclosed text, if there are any. -/
abbrev Enclosure := Option (Gaps × {s : Text // IsEnclosed s})

/-- The enclosed text between its brackets, behind its gaps. -/
def Enclosure.text (opening closing : UInt8) (e : Enclosure) : Text :=
  e.elim [] fun p => p.1.1 ++ opening :: (p.2.1 ++ [closing])

@[simp] lemma Enclosure.text_none (opening closing : UInt8) :
    Enclosure.text opening closing none = [] := rfl

/-- An annotation of a constant. -/
structure ConstantMark where
  /-- What the annotation applies to. -/
  target : Option Lexicon.plain.Name
  /-- The name. -/
  name : DottedName Lexicon.plain.isName
  /-- The arguments. -/
  arguments : Enclosure
  /-- The gaps behind the annotation. -/
  gaps : Gaps
  /-- There are some. -/
  gaps_ne_nil : gaps.1 ≠ []

/-- A constant. -/
structure Constant where
  /-- The gaps in front. -/
  before : Gaps
  /-- The annotations. -/
  marks : List ConstantMark
  /-- The name. -/
  name : {w : Text // isIdent w}
  /-- The arguments. -/
  arguments : Enclosure
  /-- The body. -/
  body : Enclosure
  /-- The gaps behind. -/
  behind : Gaps

/-- The annotation without its arguments. -/
def ConstantMark.heading (m : ConstantMark) : Text :=
  MarkSyntax.heading ⟨m.target, m.name, none⟩

/-- The annotation as it is written. -/
def ConstantMark.text (m : ConstantMark) : Text :=
  m.heading ++ m.arguments.text (ascii '(') (ascii ')')

namespace Constant

/-- The constant from its name on. -/
def nameText (c : Constant) : Text :=
  c.name.1 ++ (c.arguments.text (ascii '(') (ascii ')') ++
    c.body.text (ascii '\x7b') (ascii '\x7d'))

/-- The constant without the gaps around it. -/
def core (c : Constant) : Text := c.marks.flatMap (fun m => m.text ++ m.gaps.1) ++ c.nameText

/-- The constant as it is written. -/
def text (c : Constant) : Text := c.before.1 ++ c.core ++ c.behind.1

end Constant

/-! ### Constants are kept -/

/-- Gaps are kept. -/
lemma kept_gaps (g : Gaps) : Kept g.1 := .of_class (by decide) g.2

/-- The bytes of names are kept. -/
lemma kept_of_isNamePart {s : Text} (h : s.all isNamePart) : Kept s := .of_class (by decide) h

/-- An identifier is kept. -/
lemma kept_of_isIdent {w : Text} (h : isIdent w) : Kept w :=
  kept_of_isNamePart (all_isNamePart_of_isIdent h)

/-- What stands in parentheses or braces is kept. -/
lemma Enclosure.kept {opening closing : UInt8} (hp : (opening, closing) ∈ Brackets.blocks.pairs)
    (e : Enclosure) : Kept (e.text opening closing) := by
  cases e with
  | none => exact .nil
  | some p => exact (kept_gaps p.1).append (.enclose hp p.2.2)

/-- An annotation is kept. -/
lemma ConstantMark.kept (m : ConstantMark) : Kept m.text := by
  have htarget : Kept (prefixed m.target ":") := by
    cases m.target with
    | none => exact .nil
    | some w => exact (kept_of_isIdent (isIdent_of_isName w.2)).append (.of_plain (by decide))
  have hname : Kept m.name.text :=
    kept_of_isNamePart (m.name.text_all fun _ => isIdent_of_isName)
  have hat : Kept (utf8 "@") := .of_plain (by decide)
  exact ((hat.append htarget).append hname).append (m.arguments.kept (by decide))

/-- A constant is kept. -/
lemma Constant.kept (c : Constant) : Kept c.text := by
  have hmarks : ∀ ms : List ConstantMark, Kept (ms.flatMap fun m => m.text ++ m.gaps.1) := by
    intro ms
    induction ms with
    | nil => exact .nil
    | cons m ms ih => exact (m.kept.append (kept_gaps m.gaps)).append ih
  have hname : Kept c.nameText :=
    (kept_of_isIdent c.name.2).append
      ((c.arguments.kept (by decide)).append (c.body.kept (by decide)))
  exact ((kept_gaps c.before).append ((hmarks c.marks).append hname)).append (kept_gaps c.behind)

/-! ### The name of a constant is read -/

/-- Gaps at the start are passed. -/
lemma afterLeading_gaps {g : Text} (hg : g.all isGap) (t : Text) :
    Mark.afterLeading (g ++ t) = Mark.afterLeading t := by
  induction g with
  | nil => rfl
  | cons b g ih =>
    simp only [List.all_cons, Bool.and_eq_true] at hg
    rw [← ih hg.2, Mark.afterLeading, List.cons_append, Mark.afterLeadingFrom, if_pos hg.1,
      Mark.afterLeading]

/-- Behind gaps a text goes on as it starts behind them. -/
lemma skipGaps_append {g t : Text} (hg : g.all isGap) (ht : t.head?.any (!isGap ·)) :
    skipGaps (g ++ t) = t ∧ (g ++ t).takeWhile isGap = g := by
  have hall := List.all_eq_true.mp hg
  cases t with
  | nil => simp at ht
  | cons b t =>
    have hb : isGap b = false := by simpa using ht
    simp [skipGaps, List.dropWhile_append_of_pos hall, List.takeWhile_append_of_pos hall, hb]

/-- Gaps or an opening bracket do not go on with a name. -/
lemma head?_gaps_append {g : Text} (hg : g.all isGap) {b : UInt8}
    (hb : isNamePart b = false ∧ b ≠ ascii ':') (t : Text) :
    (g ++ b :: t).head?.any isNamePart = false ∧ (g ++ b :: t).head? ≠ some (ascii ':') := by
  cases g with
  | nil => simpa using hb
  | cons c g =>
    have hc := not_name_of_isGap (List.all_eq_true.mp hg c (by simp))
    simpa using hc

/-- What stands in brackets ends with the closing one. -/
lemma Enclosure.getLast?_text (opening closing : UInt8) (p : Gaps × {s : Text // IsEnclosed s}) :
    (Enclosure.text opening closing (some p)).getLast? = some closing := by
  have htext : Enclosure.text opening closing (some p) =
      (p.1.1 ++ opening :: p.2.1) ++ [closing] := by simp [Enclosure.text]
  rw [htext, List.getLast?_concat]

namespace ConstantMark

/-- An annotation with its gaps behind it is read as a whole. -/
lemma exists_read? (m : ConstantMark) {t : Text} (ht : t.head?.any isMarkStart) :
    ∃ a, Mark.read? (m.text ++ (m.gaps.1 ++ t)) = some a ∧ a.text = m.text := by
  obtain ⟨b, t, rfl⟩ : ∃ b t', t = b :: t' := by
    cases t with
    | nil => simp at ht
    | cons b t => exact ⟨b, t, rfl⟩
  obtain ⟨-, hgap, hne⟩ := of_isMarkStart (b := b) (by simpa using ht)
  rw [text, List.append_assoc]
  cases harguments : m.arguments with
  | none =>
    have hskip := (skipGaps_append (t := b :: t) m.gaps.2 (by simp [hgap])).1
    have hends : endsMark (m.gaps.1 ++ b :: t) := by
      cases hcase : m.gaps.1 with
      | nil => exact absurd hcase m.gaps_ne_nil
      | cons c g =>
        have hc : isGap c := List.all_eq_true.mp m.gaps.2 c (by simp [hcase])
        rw [hcase] at hskip
        simp only [endsMark, hskip]
        simp [hc, hne]
    obtain ⟨hpart, hcolon⟩ := head?_of_endsMark hends
    have hnone : readBalanced? (ascii '(') (ascii ')') (skipGaps (m.gaps.1 ++ b :: t)) = none := by
      rw [hskip, readBalanced?, if_neg fun h => hne h.1]
    have hread := MarkSyntax.read?_heading ⟨m.target, m.name, none⟩ hpart hcolon
    simp only [hnone] at hread
    exact ⟨_, hread, by simp [heading]⟩
  | some p =>
    have hbalanced : Balanced (.single (ascii '(') (ascii ')')) p.2.1 := p.2.2.all.part (by decide)
    have hrest : Enclosure.text (ascii '(') (ascii ')') (some p) ++ (m.gaps.1 ++ b :: t) =
        p.1.1 ++ ascii '(' :: (p.2.1 ++ ascii ')' :: (m.gaps.1 ++ b :: t)) := by
      simp [Enclosure.text]
    obtain ⟨hpart, hcolon⟩ := head?_gaps_append p.1.2 (b := ascii '(') (by decide)
      (p.2.1 ++ ascii ')' :: (m.gaps.1 ++ b :: t))
    obtain ⟨hskip, htake⟩ := skipGaps_append p.1.2
      (t := ascii '(' :: (p.2.1 ++ ascii ')' :: (m.gaps.1 ++ b :: t))) (by simp; decide)
    have hread := MarkSyntax.read?_heading ⟨m.target, m.name, none⟩ hpart hcolon
    rw [hskip, htake, readBalanced?_nested (by decide) hbalanced] at hread
    rw [hrest]
    exact ⟨_, hread, by simp [heading, Enclosure.text, utf8_closeParen]⟩

/-- An annotation and the gaps behind it are passed. -/
lemma afterLeading_text (m : ConstantMark) {t : Text} (ht : t.head?.any isMarkStart) :
    Mark.afterLeading (m.text ++ m.gaps.1 ++ t) = Mark.afterLeading t := by
  have hgap : isGap (ascii '@') = false := by decide
  obtain ⟨a, hread, htext⟩ := m.exists_read? ht
  obtain ⟨s, hs⟩ : ∃ s, m.text = ascii '@' :: s :=
    ⟨_, by rw [text, heading, MarkSyntax.heading, utf8_at, List.append_assoc, List.append_assoc,
      List.singleton_append]⟩
  have hlen : a.text.length - 1 = s.length := by simp [htext, hs]
  rw [hs, List.cons_append] at hread
  rw [List.append_assoc, hs, List.cons_append, ← afterLeading_gaps m.gaps.2 t, Mark.afterLeading,
    Mark.afterLeadingFrom, hgap, if_neg (by simp), hread]
  simp only [hlen, afterLeadingFrom_pass]
  rfl

end ConstantMark

namespace Constant

variable (c : Constant)

/-- What follows the name of a constant does not go on with it. -/
lemma head?_behind_name :
    (c.arguments.text (ascii '(') (ascii ')') ++
      c.body.text (ascii '\x7b') (ascii '\x7d')).head?.any isIdentPart = false := by
  have hhead : ∀ {s : Text}, s.head?.any isNamePart = false → s.head?.any isIdentPart = false := by
    intro s hs
    cases s with
    | nil => rfl
    | cons b s => exact Bool.eq_false_iff.mpr fun hb => by simp [isNamePart_of_isIdentPart hb] at hs
  cases c.arguments with
  | some p =>
    have h := (head?_gaps_append p.1.2 (b := ascii '(') (by decide) (p.2.1 ++ ascii ')' ::
      c.body.text (ascii '\x7b') (ascii '\x7d'))).1
    exact hhead (by simpa [Enclosure.text] using h)
  | none =>
    cases c.body with
    | none => rfl
    | some p =>
      have h := (head?_gaps_append p.1.2 (b := ascii '\x7b') (by decide)
        (p.2.1 ++ [ascii '\x7d'])).1
      exact hhead (by simpa [Enclosure.text] using h)

/-- A constant starts, from its name on, like an identifier. -/
lemma head?_nameText : c.nameText.head?.any isIdentStart :=
  head?_append_any (head?_isIdentStart_of_isIdent c.name.2) _

/-- A constant is not empty. -/
lemma text_ne_nil : c.text ≠ [] := by
  intro h
  have hhead := c.head?_nameText
  simp only [text, core, List.append_eq_nil_iff] at h
  simp [h] at hhead

/-- Behind the annotations of a constant stands its name. -/
lemma afterLeading_core : Mark.afterLeading c.core = c.nameText := by
  have hstart : c.nameText.head?.any isMarkStart := by
    have h := c.head?_nameText
    cases hcase : c.nameText with
    | nil => simp [hcase] at h
    | cons b s => exact isMarkStart_of_isIdentStart (by simpa [hcase] using h)
  have hname : Mark.afterLeading c.nameText = c.nameText := by
    have h := c.head?_nameText
    cases hcase : c.nameText with
    | nil => rfl
    | cons b s =>
      have hb : isIdentStart b := by simpa [hcase] using h
      rw [Mark.afterLeading, Mark.afterLeadingFrom, isGap_of_isInk (isInk_of_isIdentStart hb),
        if_neg (by simp), read?_eq_none (ne_of_class hb (by decide))]
  unfold core
  generalize c.marks = ms
  -- every annotation is followed by another one or by the name
  have hpass : ∀ ms : List ConstantMark,
      (ms.flatMap (fun m => m.text ++ m.gaps.1) ++ c.nameText).head?.any isMarkStart ∧
        Mark.afterLeading (ms.flatMap (fun m => m.text ++ m.gaps.1) ++ c.nameText) =
          c.nameText := by
    intro ms
    induction ms with
    | nil => exact ⟨hstart, hname⟩
    | cons m ms ih =>
      refine ⟨?_, ?_⟩
      · simp [ConstantMark.text, ConstantMark.heading, MarkSyntax.heading, utf8_at, isMarkStart]
      · rw [List.flatMap_cons, List.append_assoc, m.afterLeading_text ih.1, ih.2]
  exact (hpass ms).2

/-- A constant without the gaps around it starts and ends visibly. -/
lemma isSolid_core : isSolid c.core := by
  have hlast : c.nameText.getLast?.any isInk := by
    have hinks : isInk (ascii ')') ∧ isInk (ascii '\x7d') := by decide
    rw [nameText]
    cases hbody : c.body with
    | some p =>
      refine getLast?_append_any _ (getLast?_append_any _ ?_)
      simp [Enclosure.getLast?_text, hinks]
    | none =>
      cases harguments : c.arguments with
      | some p =>
        rw [Enclosure.text_none, List.append_nil]
        refine getLast?_append_any _ ?_
        simp [Enclosure.getLast?_text, hinks]
      | none =>
        simpa [Enclosure.text] using (isSolid_iff.mp (isSolid_of_isIdentPart
          (head?_isInk_of_isIdentStart (head?_isIdentStart_of_isIdent c.name.2))
          (getLast?_isIdentPart_of_isIdent c.name.2))).2
  refine isSolid_iff.mpr ⟨?_, getLast?_append_any _ hlast⟩
  unfold core
  cases c.marks with
  | nil => exact head?_isInk_of_isIdentStart c.head?_nameText
  | cons m ms =>
    have hink : isInk (ascii '@') := by decide
    simp [ConstantMark.text, ConstantMark.heading, MarkSyntax.heading, utf8_at, hink]

/-- Of a constant its name is read. -/
lemma leadingIdent_text : leadingIdent (Mark.afterLeading (trim c.text)) = c.name.1 := by
  rw [text, trim_gaps c.before.2 c.behind.2 c.isSolid_core, afterLeading_core,
    leadingIdent_eq_identAt c.head?_nameText, nameText, identAt_append c.name.2 c.head?_behind_name]

end Constant

/-! ### Bodies -/

/-- The body of an enumeration: its constants, of which there is at least one, and the members that
stand behind a semicolon. -/
structure EnumBody where
  /-- The first constant. -/
  first : Constant
  /-- The other constants. -/
  more : List Constant
  /-- The members, if there is a semicolon; their braces match. -/
  members : Option {s : Text // Balanced .braces s}

namespace EnumBody

variable (e : EnumBody)

/-- The constants. -/
def constants : List Constant := e.first :: e.more

/-- The names of the constants. -/
def names : List Text := e.constants.map (·.name.1)

/-- The constants as they are written. -/
def listed : Text := join "," (e.constants.map Constant.text)

/-- The body as it is written. -/
def text : Text := e.listed ++ e.members.elim [] (ascii ';' :: ·.1)

/-- Written constants are cut at the commas between them. -/
lemma segments_join_text (c : Constant) (cs : List Constant) :
    segments .all (· == ascii ',') {} (join "," ((c :: cs).map Constant.text)) =
      (c :: cs).map Constant.text := by
  have hB : Brackets.all.isProper := by decide
  have hcomma : utf8 "," = [ascii ','] := by decide
  induction cs generalizing c with
  | nil => simpa [join] using segments_nested_self hB c.kept.comma
  | cons d ds ih =>
    have htext : join "," ((c :: d :: ds).map Constant.text) =
        c.text ++ ascii ',' :: join "," ((d :: ds).map Constant.text) := by
      simp [join_cons_cons, hcomma]
    rw [htext, segments_nested_cut hB c.kept.comma (by decide) (by decide), ih]
    rfl

/-- The parts of the written constants are the constants. -/
lemma splitTopLevel_listed :
    splitTopLevel (ascii ',') e.listed = e.constants.map Constant.text := by
  have hlast : (e.constants.map Constant.text).getLast? ≠ some [] := by
    intro h
    obtain ⟨c, -, hc⟩ := List.mem_map.mp (List.mem_of_getLast? h)
    exact c.text_ne_nil hc
  have hparts : segments .all (· == ascii ',') {} e.listed = e.constants.map Constant.text :=
    segments_join_text e.first e.more
  rw [splitTopLevel, hparts, dropEmptyEnd, if_neg hlast]

/-- Texts with commas between them are nested where a comma is plain and each of them is. -/
lemma nested_join {brackets : Brackets} {sep : UInt8 → Bool} (f : Text → Text)
    (hf : ∀ s t, f (s ++ t) = f s ++ f t) (hnil : f [] = []) (hcomma : Nested brackets sep (f ","))
    {parts : List Text} (h : ∀ p ∈ parts, Nested brackets sep (f p)) :
    Nested brackets sep (f (join "," parts)) := by
  induction parts with
  | nil => simpa [join, hnil] using Nested.nil
  | cons p ps ih =>
    obtain ⟨hp, hps⟩ := List.forall_mem_cons.mp h
    cases ps with
    | nil => simpa [join] using hp
    | cons q qs =>
      rw [join_cons_cons, hf, hf]
      exact (hp.append hcomma).append (ih hps)

/-- The constants that a body lists are those that were written. -/
theorem enumValues_text : enumValues e.text = e.names := by
  have hsemicolon : Nested .blocks (· == ascii ';') (withoutQuotes e.listed) := by
    refine nested_join withoutQuotes withoutQuotes_append rfl (.of_plain (by decide))
      fun p hp => ?_
    obtain ⟨c, -, rfl⟩ := List.mem_map.mp hp
    exact c.kept.semicolon
  have hlisted : enumValues e.text = ((splitTopLevel (ascii ',') e.listed).map fun item =>
      leadingIdent (Mark.afterLeading (trim item))).filter (!·.isEmpty) := by
    rw [text]
    cases e.members with
    | none => simp [enumValues, topLevelSemicolon?_eq_none hsemicolon]
    | some m => simp [enumValues, topLevelSemicolon?_append hsemicolon]
  have hvalues : e.constants.map ((fun item => leadingIdent (Mark.afterLeading (trim item))) ∘
      Constant.text) = e.names := List.map_congr_left fun c _ => c.leadingIdent_text
  have hfilter : e.names.filter (!·.isEmpty) = e.names := by
    refine List.filter_eq_self.mpr fun w hw => ?_
    obtain ⟨c, -, rfl⟩ := List.mem_map.mp hw
    have hident := c.name.2
    cases hcase : c.name.1 with
    | nil => simp [hcase, isIdent] at hident
    | cons b s => rfl
  rw [hlisted, splitTopLevel_listed, List.map_map, hvalues, hfilter]

/-- The braces of a body match. -/
lemma balanced_text : Balanced .braces e.text := by
  have hlisted : Balanced .braces e.listed := by
    refine nested_join id (fun _ _ => rfl) rfl (.of_plain (by decide)) fun p hp => ?_
    obtain ⟨c, -, rfl⟩ := List.mem_map.mp hp
    exact c.kept.comma.part (by decide)
  refine hlisted.append ?_
  cases e.members with
  | none => exact .nil
  | some m => exact .byte (by decide) rfl m.2

end EnumBody

/-! ### Enumerations in a source -/

/-- The names of enumerations: a word that starts a declaration is none. -/
def Lexicon.declared : Lexicon := ⟨declarationWords, fun _ => true⟩

/-- An enumeration. -/
structure Enumeration where
  /-- The name. -/
  name : Lexicon.declared.Name
  /-- What stands between the name and the brace, as constructor parameters and supertypes do. -/
  clause : Text
  /-- The search for the body passes over it. -/
  isClause : IsClause clause
  /-- It does not go on with the name. -/
  head_clause : clause.head?.any isIdentPart = false
  /-- The body. -/
  body : EnumBody

/-- The keywords of an enumeration. -/
def enumKeywords : Dialect → List Text
  | .kotlin => ["enum", "class"]
  | _ => ["enum"]

namespace Enumeration

variable (e : Enumeration)

/-- The enumeration as it is written in a dialect. -/
def text (dialect : Dialect) : Text :=
  join " " (enumKeywords dialect) ++ ascii ' ' :: e.name.1 ++ (e.clause ++ blockText e.body.text)

/-- The enumeration as it is to be read. -/
def decl : EnumDecl := ⟨e.name.1, e.body.names⟩

/-- A written enumeration is found wherever it stands, with the names of its constants. -/
lemma exists_enums_eq {ks : List Text} (hne : ks ≠ []) (hks : ∀ k ∈ ks, isKeyword k)
    {start part : UInt8 → Bool} (hbytes : AreIdentBytes start part)
    (hstart : e.name.1.head?.any start) (hpart : e.name.1.tail.all part) {pre : Text}
    (hpre : startsAfresh ks pre) (post : Text) :
    ∃ earlier later, enums (header? ks start part) (pre ++ (join " " ks ++ ascii ' ' :: e.name.1 ++
      (e.clause ++ blockText e.body.text ++ post))) = earlier ++ e.decl :: later := by
  obtain ⟨b, name, hname⟩ : ∃ b name, e.name.1 = b :: name := by
    cases h : e.name.1 with
    | nil => simp [h] at hstart
    | cons b name => exact ⟨b, name, rfl⟩
  have hb : start b := by simpa [hname] using hstart
  have hrest : name.all part := by simpa [hname] using hpart
  have hclause : (e.clause ++ blockText e.body.text ++ post).head?.any part = false := by
    have hbrace : isIdentPart (ascii '\x7b') = false := by decide
    have hhead : (e.clause ++ blockText e.body.text ++ post).head?.any isIdentPart = false := by
      have h := e.head_clause
      cases hcase : e.clause with
      | nil => simp [blockText, hbrace]
      | cons c s => simpa [hcase] using h
    cases hcase : e.clause ++ blockText e.body.text ++ post with
    | nil => rfl
    | cons c s =>
      by_contra hc
      simp [hcase, hbytes.2 c (by simpa using hc)] at hhead
  obtain ⟨earlier, later, hfound⟩ := exists_occurrences_header hne hks hbytes hpre hb hrest hclause
  have hword : e.name.1 ∉ declarationWords := not_mem_of_isName e.name.2
  have hbody := body?_clause e.isClause e.body.balanced_text post
  have hdecl : e.decl = ⟨b :: name, e.body.names⟩ := by rw [decl, hname]
  rw [hname] at hword ⊢
  rw [enums, hfound, List.filterMap_append, List.filterMap_cons, hdecl]
  simp only [hword, if_false, Occurrence.after, List.drop_left, hbody, Option.map_some,
    e.body.enumValues_text]
  exact ⟨_, _, rfl⟩

end Enumeration

/-- An enumeration is read with exactly the names of its constants in their order, in both dialects
and wherever it stands in a source: neither its annotations, arguments and bodies nor its members
add or hide a name. -/
theorem enums_enumeration (dialect : Dialect) (e : Enumeration) {pre : Text}
    (hpre : startsAfresh (enumKeywords dialect) pre) (post : Text) :
    ∃ earlier later,
      dialect.enums (pre ++ e.text dialect ++ post) = earlier ++ e.decl :: later := by
  have hident := isIdent_of_isName e.name.2
  have hwords := List.all_eq_true.mp (all_isWord_of_isName e.name.2)
  have hhead := head?_isIdentStart_of_isIdent hident
  have htail : e.name.1.tail.all isIdentPart :=
    List.all_eq_true.mpr fun b hb =>
      List.all_eq_true.mp (all_isIdentPart_of_isIdent hident) b (List.mem_of_mem_tail hb)
  have htext : pre ++ e.text dialect ++ post = pre ++ (join " " (enumKeywords dialect) ++
      ascii ' ' :: e.name.1 ++ (e.clause ++ blockText e.body.text ++ post)) := by
    simp [Enumeration.text]
  have hne : enumKeywords dialect ≠ [] := by cases dialect <;> simp [enumKeywords]
  have hks : ∀ k ∈ enumKeywords dialect, isKeyword k := by cases dialect <;> decide
  rw [htext]
  cases dialect with
  | java => exact e.exists_enums_eq hne hks areIdentBytes_ident hhead htail hpre post
  | unknown => exact e.exists_enums_eq hne hks areIdentBytes_ident hhead htail hpre post
  | kotlin =>
    -- the name of a class holds no dollar sign in this dialect, and neither does a word
    have hstart : ∀ b, isIdentStart b = true → isWord b = true → Kotlin.isNameStart b = true := by
      decide +kernel
    have hnameStart : e.name.1.head?.any Kotlin.isNameStart := by
      cases hcase : e.name.1 with
      | nil => simp [hcase] at hhead
      | cons b s =>
        exact hstart b (by simpa [hcase] using hhead) (hwords b (by simp [hcase]))
    have hnameTail : e.name.1.tail.all isWord :=
      List.all_eq_true.mpr fun b hb => hwords b (List.mem_of_mem_tail hb)
    exact e.exists_enums_eq hne hks areIdentBytes_word hnameStart hnameTail hpre post

/-- An enumeration with an annotation, arguments, a body and a member, all of which hold commas or
semicolons. -/
def palette : Enumeration where
  name := ⟨"Color", by decide⟩
  clause := " : Coded "
  isClause := by
    have htext : utf8 " : Coded " =
        ascii ' ' :: ascii ':' :: ascii ' ' :: (utf8 "Coded" ++ [ascii ' ']) := by decide
    rw [htext]
    exact .sign (by decide) (by decide) (.sign (by decide) (by decide) (.sign (by decide)
      (by decide) (.word (by decide) (by decide) (by decide)
        (.sign (by decide) (by decide) .nil))))
  head_clause := by decide
  body :=
    { first :=
        { before := ⟨" ", by decide⟩
          marks := [⟨none, ⟨[], ⟨"Old", by decide⟩⟩,
            some (⟨[], by decide⟩, ⟨ascii '"' :: (utf8 "x, y;" ++ [ascii '"']),
              .quote (by decide) (by decide), .of_plain (by decide)⟩),
            ⟨"\n  ", by decide⟩, by decide⟩]
          name := ⟨"RED", by decide⟩
          arguments := some (⟨[], by decide⟩, ⟨"1, 2", .of_plain (by decide), .of_plain (by decide)⟩)
          body := some (⟨" ", by decide⟩,
            ⟨" val n = 1; ", .of_plain (by decide), .of_plain (by decide)⟩)
          behind := ⟨[], by decide⟩ }
      more := [⟨⟨" ", by decide⟩, [], ⟨"GREEN", by decide⟩, none, none, ⟨[], by decide⟩⟩]
      members := some ⟨" val code = 1, ", .of_plain (by decide)⟩ }

theorem enums_enumeration_palette :
    ∃ earlier later, Dialect.kotlin.enums ("@Doc public " ++
      utf8 "enum class Color : Coded \x7b @Old(\"x, y;\")\n  RED(1, 2) \x7b val n = 1; \x7d, GREEN" ++
        "; val code = 1, \x7d fun f() = 1") =
      earlier ++ ⟨"Color", ["RED", "GREEN"]⟩ :: later := by
  have hpre : startsAfresh (enumKeywords .kotlin) "@Doc public " := by decide
  have h := enums_enumeration .kotlin palette hpre " fun f() = 1"
  have htext : utf8 "@Doc public " ++ palette.text .kotlin ++ " fun f() = 1" = "@Doc public " ++
      utf8 "enum class Color : Coded \x7b @Old(\"x, y;\")\n  RED(1, 2) \x7b val n = 1; \x7d, GREEN" ++
        "; val code = 1, \x7d fun f() = 1" := by decide +kernel
  rw [htext] at h
  exact h

/-- Where brackets match only outside of literals and angle brackets are left out, constants are
hidden and members become constants: the sign of a comparison opens a bracket that is never closed,
the sign of an arrow closes one too early, and a quoted parenthesis hides the semicolon. -/
theorem enums_unbalanced :
    Dialect.java.enums "enum E \x7b A(1 < 2), B \x7d" = [⟨"E", ["A"]⟩] ∧
      Dialect.java.enums "enum E \x7b A(p -> q, r), B \x7d" = [⟨"E", ["A", "r", "B"]⟩] ∧
      Dialect.java.enums "enum E \x7b A(\"(\"), B; int x, y; \x7d" =
        [⟨"E", ["A", "B", "y"]⟩] := by
  decide +kernel

end DtoSchema.Declaration
