import DtoSchema.Proofs.Source.Parts
import DtoSchema.Proofs.Text.Ends
import DtoSchema.Proofs.Declaration.ElidedMarks

/-!
# What follows annotations and modifiers

The readers of annotations and modifiers look ahead: a name goes on while bytes of names follow, and
an annotation takes the parentheses behind it.  A text that offers nothing of this kind is a tail
(`isTail`).  Behind a nested text, a tail does not change what is read: `read?_append` says so for
one annotation, `afterLeading_append` for several of them and `leadingMarks?_append` for annotations
and modifiers.  If the nested text is read to its end, reading goes on in the tail.
-/

namespace DtoSchema.Declaration

open Text Source

/-! ### Tails -/

/-- The text continues neither a name nor a character that stands before it, and offers no arguments
to an annotation. -/
def isTail (t : Text) : Bool :=
  t.head?.all (fun b => !isNamePart b && b != ascii ':' && !isContinuation b) &&
    (skipGaps t).head? != some (ascii '(')

section Tail

variable {t : Text} (ht : isTail t)
include ht

lemma head?_isNamePart_of_isTail : t.head?.any isNamePart = false := by
  cases t with
  | nil => rfl
  | cons b t => simp_all [isTail]

lemma head?_ne_of_isTail : t.head? ≠ some (ascii ':') := by
  cases t with
  | nil => simp
  | cons b t => simp_all [isTail]

lemma head?_isContinuation_of_isTail : t.head?.any isContinuation = false := by
  cases t with
  | nil => rfl
  | cons b t => simp_all [isTail]

lemma head?_isIdentPart_of_isTail : t.head?.any isIdentPart = false := by
  have h := head?_isNamePart_of_isTail ht
  cases t with
  | nil => rfl
  | cons b t =>
    simp only [List.head?_cons, Option.any_some, isNamePart, Bool.or_eq_false_iff] at h ⊢
    exact h.1

lemma head?_isIdentStart_of_isTail : t.head?.any isIdentStart = false := by
  have h := head?_isIdentPart_of_isTail ht
  cases t with
  | nil => rfl
  | cons b t =>
    simp only [List.head?_cons, Option.any_some, isIdentPart, Bool.or_eq_false_iff] at h ⊢
    exact h.1

lemma readBalanced?_of_isTail : readBalanced? (ascii '(') (ascii ')') (skipGaps t) = none := by
  have hopen : (skipGaps t).head? ≠ some (ascii '(') := by simp_all [isTail]
  cases hs : skipGaps t with
  | nil => rfl
  | cons b s =>
    have hb : b ≠ ascii '(' := by simpa [hs] using hopen
    simp [readBalanced?, hb]

/-! ### Names -/

lemma head?_append_tail (s : Text) :
    (s ++ t).head?.any isIdentStart = s.head?.any isIdentStart := by
  cases s with
  | nil => exact head?_isIdentStart_of_isTail ht
  | cons c s => rfl

/-- A name does not go on in a tail. -/
lemma nameSpan_append_tail (s : Text) :
    Mark.nameSpan (s ++ t) = ((Mark.nameSpan s).1, (Mark.nameSpan s).2 ++ t) := by
  induction s with
  | nil => exact nameSpan_stop (head?_isNamePart_of_isTail ht)
  | cons b s ih =>
    rw [List.cons_append, Mark.nameSpan, Mark.nameSpan, head?_append_tail ht]
    split
    · rw [ih]
      rfl
    · rfl

lemma afterColon?_append_tail (s : Text) :
    Mark.afterColon? (s ++ t) = (Mark.afterColon? s).map fun r => (r.1, r.2 ++ t) := by
  cases s with
  | nil =>
    have hcolon := head?_ne_of_isTail ht
    cases t with
    | nil => rfl
    | cons b t =>
      have hb : b ≠ ascii ':' := by simpa using hcolon
      simp [Mark.afterColon?, hb]
  | cons b s =>
    rw [List.cons_append, Mark.afterColon?, Mark.afterColon?, head?_append_tail ht]
    split
    · rw [nameSpan_append_tail ht]
      rfl
    · rfl

/-- A word does not go on in a tail. -/
lemma identAt_append_tail {u : Text} (hne : u ≠ []) : identAt (u ++ t) = identAt u := by
  obtain ⟨b, u, rfl⟩ := List.exists_cons_of_ne_nil hne
  have hstop : t.takeWhile isIdentPart = [] := by
    have h := head?_isIdentPart_of_isTail ht
    cases t with
    | nil => rfl
    | cons c t => exact List.takeWhile_cons_of_neg (by simpa using h)
  have hrun : (u ++ t).takeWhile isIdentPart = u.takeWhile isIdentPart := by
    rw [List.takeWhile_append]
    split
    · next hall =>
      rw [hstop, List.append_nil]
      exact (List.takeWhile_prefix isIdentPart).eq_of_length hall |>.symm
    · rfl
  simp [identAt, hrun]

end Tail

lemma skipGaps_append_eq (s t : Text) :
    skipGaps (s ++ t) = if skipGaps s = [] then skipGaps t else skipGaps s ++ t := by
  rw [skipGaps, List.dropWhile_append]
  by_cases h : s.dropWhile isGap = []
  · simp [skipGaps, h]
  · simp [skipGaps, h]

lemma skipGaps_eq_self {s : Text} (h : s.head?.any isGap = false) : skipGaps s = s := by
  cases s with
  | nil => rfl
  | cons b s => exact List.dropWhile_cons_of_neg (by simpa using h)

/-! ### Families of brackets -/

/-- The bytes of annotations in front of their arguments, and those that are not visible. -/
def isMarkByte (b : UInt8) : Bool :=
  !isInk b || isNamePart b || b == ascii '@' || b == ascii ':'

/-- The family holds parentheses, and none of its brackets is part of a name or of white space. -/
def suitsMarks (brackets : Brackets) : Bool :=
  (Brackets.single (ascii '(') (ascii ')')).isPartOf brackets &&
    (brackets.opening ++ brackets.closing).all (!isMarkByte ·)

lemma isMarkByte_of_isInk {b : UInt8} (hb : isInk b = false) : isMarkByte b := by
  simp [isMarkByte, hb]

lemma isMarkByte_of_isGap {b : UInt8} (hb : isGap b) : isMarkByte b :=
  isMarkByte_of_isInk (isInk_of_isGap hb)

lemma isMarkByte_of_isIdentPart {b : UInt8} (hb : isIdentPart b) : isMarkByte b := by
  simp [isMarkByte, isNamePart_of_isIdentPart hb]

lemma isMarkByte_of_isSpace {w : Text} (hw : IsSpace w) : w.all isMarkByte :=
  List.all_eq_true.mpr fun _ hb => isMarkByte_of_isInk (hw.isInk_of_mem hb)

lemma areMarkBytes_spaces : spaces.all (·.all isMarkByte) :=
  List.all_eq_true.mpr fun e he => isMarkByte_of_isSpace (by simpa using IsSpace.char he .nil)

section Marks

variable {brackets : Brackets} {sep : UInt8 → Bool} (hB : suitsMarks brackets) {u : Text}
include hB

lemma isPlain_of_isMarkByte {b : UInt8} (hb : isMarkByte b) : brackets.isPlain b := by
  have hquotes : [ascii '"', ascii '\''].all (!isMarkByte ·) := by decide
  refine Brackets.isPlain_of_class ?_ hb
  rw [List.append_assoc, List.all_append, hquotes, (Bool.and_eq_true_iff.mp hB).2]
  rfl

lemma all_isPlain_of_isMarkByte {a : Text} (ha : a.all isMarkByte) : a.all brackets.isPlain :=
  all_mono (fun _ => isPlain_of_isMarkByte hB) ha

/-! ### One annotation -/

lemma nested_skipGaps (hu : Nested brackets sep u) : Nested brackets sep (skipGaps u) := by
  have hall : (u.takeWhile isGap).all brackets.isPlain :=
    all_isPlain_of_isMarkByte hB (all_mono (fun _ => isMarkByte_of_isGap) List.all_takeWhile)
  refine Nested.of_plain_append hall ?_
  rwa [skipGaps, List.takeWhile_append_dropWhile]

lemma nested_trimStart (hu : Nested brackets sep u) : Nested brackets sep (trimStart u) := by
  obtain ⟨w, hw, hspace⟩ := exists_space_append u
  rw [hw] at hu
  exact hu.of_plain_append (all_isPlain_of_isMarkByte hB (isMarkByte_of_isSpace hspace))

lemma nested_trimEnd (hu : Nested brackets sep u) : Nested brackets sep (trimEnd u) := by
  obtain ⟨w, hw, hspace⟩ := exists_append_space u
  rw [hw] at hu
  exact hu.of_append (all_isPlain_of_isMarkByte hB (isMarkByte_of_isSpace hspace))

/-- The arguments of an annotation end where the nested text behind its heading ends. -/
lemma readArguments_append (hu : Nested brackets sep u) {t : Text} (ht : isTail t)
    (target name heading : Text) :
    readArguments target name heading (u ++ t) = readArguments target name heading u := by
  have hskip := skipGaps_append_eq u t
  by_cases hempty : skipGaps u = []
  · rw [if_pos hempty] at hskip
    rw [readArguments, readArguments, hskip, readBalanced?_of_isTail ht, hempty]
    rfl
  · rw [if_neg hempty] at hskip
    have htake : (u ++ t).takeWhile isGap = u.takeWhile isGap := by
      have hall := congrArg List.length (List.takeWhile_append_dropWhile (p := isGap) (l := u))
      have hpos := List.length_pos_iff.mpr hempty
      simp only [List.length_append, skipGaps] at hall hpos
      rw [List.takeWhile_append, if_neg (by omega)]
    have hread := (nested_skipGaps hB hu).readBalanced?_append (Bool.and_eq_true_iff.mp hB).1
      (by decide) hempty t
    rw [readArguments, readArguments, hskip, htake, hread]
    cases readBalanced? (ascii '(') (ascii ')') (skipGaps u) <;> rfl

/-- A nested text is what an annotation takes of it and a nested rest. -/
lemma exists_readArguments (hu : Nested brackets sep u) (target name heading : Text) :
    ∃ r, heading ++ u = (readArguments target name heading u).text ++ r ∧
      Nested brackets sep r := by
  cases hread : readBalanced? (ascii '(') (ascii ')') (skipGaps u) with
  | none => exact ⟨u, by simp [readArguments, hread], hu⟩
  | some x =>
    obtain ⟨body, r⟩ := x
    refine ⟨r, ?_, (nested_skipGaps hB hu).of_readBalanced? (Bool.and_eq_true_iff.mp hB).1
      (by decide) hread⟩
    have hsplit : u = u.takeWhile isGap ++ ascii '(' :: (body ++ ascii ')' :: r) := by
      rw [← eq_of_readBalanced? hread]
      exact List.takeWhile_append_dropWhile.symm
    conv_lhs => rw [hsplit]
    simp [readArguments, hread, utf8_closeParen]

omit hB in
/-- The heading of an annotation is read in front of every tail. -/
lemma exists_heading {s : Text} (hname : (Mark.nameSpan s).1 ≠ []) :
    ∃ target name heading rest, ascii '@' :: s = heading ++ rest ∧ heading ≠ [] ∧
      heading.all isMarkByte ∧ ∀ t, isTail t →
        Mark.read? (ascii '@' :: (s ++ t)) =
          some (readArguments target name heading (rest ++ t)) := by
  have hpart : ∀ b, isNamePart b = true → isMarkByte b = true := by
    intro b hb
    simp [isMarkByte, hb]
  have hbytes : ∀ {a : Text}, a.all isNamePart → a.all isMarkByte := all_mono hpart
  have hfirst := hbytes (nameSpan_all s)
  have happend := nameSpan_append s
  cases hcolon : Mark.afterColon? (Mark.nameSpan s).2 with
  | none =>
    refine ⟨[], (Mark.nameSpan s).1, ascii '@' :: (Mark.nameSpan s).1, (Mark.nameSpan s).2,
      by rw [List.cons_append, happend], by simp, ?_, fun t ht => ?_⟩
    · rw [List.all_cons, hfirst]
      decide
    · have hspan := nameSpan_append_tail ht s
      have hread := read?_name (s := s ++ t) (by rw [hspan]; exact hname)
        (by rw [hspan, afterColon?_append_tail ht, hcolon]; rfl)
      rwa [hspan] at hread
  | some x =>
    obtain ⟨name, rest⟩ := x
    obtain ⟨heq, hall⟩ := eq_of_afterColon? hcolon
    refine ⟨(Mark.nameSpan s).1, name, ascii '@' :: ((Mark.nameSpan s).1 ++ ascii ':' :: name),
      rest, ?_, by simp, ?_, fun t ht => ?_⟩
    · rw [List.cons_append, List.append_assoc, List.cons_append, ← heq, happend]
    · rw [List.all_cons, List.all_append, hfirst, List.all_cons, hbytes hall]
      decide
    · have hspan := nameSpan_append_tail ht s
      have hcolon' : Mark.afterColon? (Mark.nameSpan (s ++ t)).2 = some (name, rest ++ t) := by
        rw [hspan, afterColon?_append_tail ht, hcolon]
        rfl
      have hread := read?_target (by rw [hspan]; exact hname) hcolon'
      rwa [hspan] at hread

/-- An annotation at the start of a nested text is read in the same way in front of every tail, and
what it leaves of the text is nested. -/
lemma read?_cases (hu : Nested brackets sep u) (hne : u ≠ []) :
    (∀ t, isTail t → Mark.read? (u ++ t) = none) ∨
      ∃ a r, u = a.text ++ r ∧ a.text ≠ [] ∧ Nested brackets sep r ∧
        ∀ t, isTail t → Mark.read? (u ++ t) = some a := by
  obtain ⟨b, s, rfl⟩ := List.exists_cons_of_ne_nil hne
  by_cases hb : b = ascii '@'
  · subst hb
    by_cases hname : (Mark.nameSpan s).1 = []
    · refine Or.inl fun t ht => ?_
      have hspan := nameSpan_append_tail ht s
      simp [Mark.read?, hspan, hname]
    · obtain ⟨target, name, heading, rest, heq, hheading, hall, hread⟩ := exists_heading hname
      rw [heq] at hu ⊢
      have hrest := Nested.of_plain_append (all_isPlain_of_isMarkByte hB hall) hu
      obtain ⟨r, hr, hnested⟩ := exists_readArguments hB hrest target name heading
      refine Or.inr ⟨readArguments target name heading rest, r, hr, ?_, hnested, fun t ht => ?_⟩
      · unfold readArguments
        split <;> simp [hheading]
      · rw [← heq, List.cons_append, hread t ht, readArguments_append hB hrest ht]
  · exact Or.inl fun t _ => read?_eq_none hb (s ++ t)

/-! ### Several annotations -/

/-- One step over the annotations and gaps at the start of a nested text. -/
lemma afterLeading_step (hu : Nested brackets sep u) (hne : u ≠ []) :
    (∀ t, isTail t → Mark.afterLeading (u ++ t) = u ++ t) ∨
      ∃ a r, u = a ++ r ∧ a ≠ [] ∧ Nested brackets sep r ∧
        ∀ t, isTail t → Mark.afterLeading (u ++ t) = Mark.afterLeading (r ++ t) := by
  obtain ⟨b, s, rfl⟩ := List.exists_cons_of_ne_nil hne
  by_cases hgap : isGap b
  · have hbyte := isPlain_of_isMarkByte hB (isMarkByte_of_isGap hgap)
    refine Or.inr ⟨[b], s, rfl, by simp, hu.of_cons hbyte, ?_⟩
    intro t _
    rw [List.cons_append, Mark.afterLeading, Mark.afterLeadingFrom, if_pos hgap]
    rfl
  · have hhead : ∀ t, ((b :: s) ++ t).head?.any isGap = false := by simp [hgap]
    rcases read?_cases hB hu hne with hread | ⟨a, r, heq, ha, hr, hread⟩
    · exact Or.inl fun t ht => afterLeading_stop (hhead t) (hread t ht)
    · refine Or.inr ⟨a.text, r, heq, ha, hr, fun t ht => ?_⟩
      have hmark := hread t ht
      have hgaps := hhead t
      rw [heq, List.append_assoc] at hmark hgaps ⊢
      exact afterLeading_mark hmark ha hgaps

/-- The annotations in front of a nested text and a tail. -/
lemma afterLeading_append (hu : Nested brackets sep u) {t : Text} (ht : isTail t) :
    Mark.afterLeading (u ++ t) =
      if Mark.afterLeading u = [] then Mark.afterLeading t else Mark.afterLeading u ++ t := by
  induction hn : u.length using Nat.strong_induction_on generalizing u with
  | _ n ih =>
    by_cases hne : u = []
    · simp [hne, Mark.afterLeading, Mark.afterLeadingFrom]
    · rcases afterLeading_step hB hu hne with hstop | ⟨a, r, rfl, ha, hr, hpass⟩
      · have hself := hstop [] rfl
        rw [List.append_nil] at hself
        rw [hstop t ht, hself, if_neg hne]
      · have hself := hpass [] rfl
        have hpos := List.length_pos_iff.mpr ha
        simp only [List.length_append] at hn
        rw [List.append_nil, List.append_nil] at hself
        rw [hpass t ht, hself, ih r.length (by omega) hr rfl]

/-! ### Annotations and modifiers -/

section LeadingMarks

variable {blanks : List Text} {isModifier : Text → Bool} (hblanks : areCharacters blanks)
  (hplain : blanks.all (·.all isMarkByte)) (hempty : isModifier [] = false)
include hblanks hplain hempty

/-- One step over the annotations, modifiers and blanks at the start of a nested text. -/
lemma leadingMarks?_step (hu : Nested brackets sep u) (hne : u ≠ []) :
    (∀ t, isTail t → leadingMarks? blanks isModifier (u ++ t) = none) ∨
    (∀ t, isTail t → leadingMarks? blanks isModifier (u ++ t) = some ([], u ++ t)) ∨
    ∃ m a r, u = a ++ r ∧ a ≠ [] ∧ Nested brackets sep r ∧
      ∀ t, isTail t → leadingMarks? blanks isModifier (u ++ t) =
        (leadingMarks? blanks isModifier (r ++ t)).map fun x => (m ++ x.1, x.2) := by
  have hcode := (Bool.and_eq_true_iff.mp hblanks).1
  rcases leadingWidth_cases hcode u with ⟨hzero, -⟩ | ⟨e, he, r, hpos, rfl⟩
  · have hwidth : ∀ t, isTail t → leadingWidth blanks (u ++ t) = 0 := fun t ht =>
      leadingWidth_append_of_head? hblanks hne hzero (head?_isContinuation_of_isTail ht)
    have hhead : ∀ t, (u ++ t).head? = u.head? := fun t => List.head?_append_of_ne_nil _ hne
    by_cases hat : u.head? = some (ascii '@')
    · rcases read?_cases hB hu hne with hread | ⟨a, r, rfl, ha, hr, hread⟩
      · exact Or.inl fun t ht =>
          leadingMarks?_none (hwidth t ht) ((hhead t).trans hat) (hread t ht)
      · refine Or.inr (Or.inr ⟨a.text ++ " ", a.text, r, rfl, ha, hr, fun t ht => ?_⟩)
        have hw := hwidth t ht
        have hh := (hhead t).trans hat
        have hmark := hread t ht
        rw [List.append_assoc] at hw hh hmark ⊢
        exact leadingMarks?_mark hw ha hh hmark
    · have hword : ∀ t, isTail t → identAt (u ++ t) = identAt u := fun t ht =>
        identAt_append_tail ht hne
      cases hmodifier : isModifier (identAt u) with
      | false =>
        refine Or.inr (Or.inl fun t ht => ?_)
        exact leadingMarks?_rest (hwidth t ht) (by rwa [hhead]) (by rwa [hword t ht])
      | true =>
        have hw : identAt u ≠ [] := by
          intro hnil
          simp [hnil, hempty] at hmodifier
        obtain ⟨r, heq, hpart⟩ := exists_identAt u
        generalize hident : identAt u = w at *
        subst heq
        have hrun : w.all brackets.isPlain :=
          all_isPlain_of_isMarkByte hB (all_mono (fun _ => isMarkByte_of_isIdentPart) hpart)
        refine Or.inr (Or.inr ⟨[], w, r, rfl, hw, .of_plain_append hrun hu, fun t ht => ?_⟩)
        have hzero' := hwidth t ht
        have hat' := (hhead t).trans_ne hat
        have hident' := hword t ht
        rw [List.append_assoc] at hzero' hat' hident' ⊢
        rw [leadingMarks?_word hzero' hat' hident' hw hmodifier]
        cases leadingMarks? blanks isModifier (r ++ t) <;> rfl
  · have hchar := all_isPlain_of_isMarkByte hB (List.all_eq_true.mp hplain e he)
    refine Or.inr (Or.inr ⟨[], e, r, rfl, hpos, .of_plain_append hchar hu, fun t _ => ?_⟩)
    rw [List.append_assoc, leadingMarks?_blank hcode he hpos]
    cases leadingMarks? blanks isModifier (r ++ t) <;> rfl

/-- Annotations and modifiers in front of a nested text and a tail: if they are all of the nested
text, reading goes on in the tail. -/
theorem leadingMarks?_append (hu : Nested brackets sep u) {t : Text} (ht : isTail t) :
    leadingMarks? blanks isModifier (u ++ t) =
      (leadingMarks? blanks isModifier u).bind fun x =>
        if x.2 = [] then (leadingMarks? blanks isModifier t).map fun y => (x.1 ++ y.1, y.2)
        else some (x.1, x.2 ++ t) := by
  induction hn : u.length using Nat.strong_induction_on generalizing u with
  | _ n ih =>
    by_cases hne : u = []
    · subst hne
      have hnil : leadingMarks? blanks isModifier [] = some ([], []) := rfl
      rw [hnil, List.nil_append, Option.bind_some, if_pos rfl]
      exact Option.map_id'.symm
    · rcases leadingMarks?_step hB hblanks hplain hempty hu hne with hnone | hstop |
        ⟨m, a, r, rfl, ha, hr, hpass⟩
      · have hself := hnone [] rfl
        rw [List.append_nil] at hself
        rw [hnone t ht, hself, Option.bind_none]
      · have hself := hstop [] rfl
        rw [List.append_nil] at hself
        rw [hstop t ht, hself, Option.bind_some, if_neg hne]
      · have hself := hpass [] rfl
        have hpos := List.length_pos_iff.mpr ha
        simp only [List.length_append] at hn
        rw [List.append_nil, List.append_nil] at hself
        rw [hpass t ht, hself, ih r.length (by omega) hr rfl, Option.bind_map, Option.map_bind]
        refine congrArg _ (funext fun x => ?_)
        by_cases hx : x.2 = []
        · simp [hx, Function.comp_def]
        · simp [hx]

/-- What annotations and modifiers leave of a nested text is nested. -/
lemma nested_of_leadingMarks? (hu : Nested brackets sep u) {x : Text × Text}
    (h : leadingMarks? blanks isModifier u = some x) : Nested brackets sep x.2 := by
  induction hn : u.length using Nat.strong_induction_on generalizing u x with
  | _ n ih =>
    by_cases hne : u = []
    · subst hne
      obtain rfl := Option.some.inj h
      exact hu
    · rcases leadingMarks?_step hB hblanks hplain hempty hu hne with hnone | hstop |
        ⟨m, a, r, rfl, ha, hr, hpass⟩
      · have hself := hnone [] rfl
        simp [h] at hself
      · have hself := hstop [] rfl
        rw [List.append_nil, h] at hself
        rwa [Option.some.inj hself]
      · have hself := hpass [] rfl
        rw [List.append_nil, List.append_nil, h] at hself
        obtain ⟨y, hy, rfl⟩ := Option.map_eq_some_iff.mp hself.symm
        have hpos := List.length_pos_iff.mpr ha
        simp only [List.length_append] at hn
        exact ih r.length (by omega) hr (x := y) hy rfl

end LeadingMarks

end Marks

/-- Annotations and modifiers leave the end of a text. -/
lemma isSuffix_of_leadingMarks? {blanks : List Text} {isModifier : Text → Bool} {s : Text}
    {x : Text × Text} (h : leadingMarks? blanks isModifier s = some x) : x.2 <:+ s := by
  have hfrom : ∀ (s : Text) (k : ℕ) (x : Text × Text),
      leadingMarksFrom? blanks isModifier k s = some x → x.2 <:+ s := by
    intro s
    induction s with
    | nil =>
      intro k x h
      simp only [leadingMarksFrom?, Option.some.injEq] at h
      simp [← h]
    | cons b s ih =>
      intro k x h
      have hpass : ∀ {k : ℕ}, leadingMarksFrom? blanks isModifier k s = some x → x.2 <:+ b :: s :=
        fun h => (ih _ _ h).trans (List.suffix_cons b s)
      cases k with
      | succ k => exact hpass h
      | zero =>
        rw [leadingMarksFrom?] at h
        split at h
        · exact hpass h
        · split at h
          · obtain ⟨a, -, hmap⟩ := Option.bind_eq_some_iff.mp h
            obtain ⟨y, hy, rfl⟩ := Option.map_eq_some_iff.mp hmap
            exact (ih _ _ hy).trans (List.suffix_cons b s)
          · simp only at h
            split at h
            · exact hpass h
            · rw [← Option.some.inj h]
  exact hfrom s 0 x h

/-! ### Stops -/

/-- The visible bytes that belong to no name, annotation or group of parentheses. -/
def isStop (b : UInt8) : Bool :=
  isInk b && !isNamePart b && b != ascii ':' && b != ascii '@' && b != ascii '('

/-- Reading stops here: there is white space, and a byte that stops it or nothing behind. -/
def Stops (t : Text) : Prop := ∃ w r, t = w ++ r ∧ IsSpace w ∧ r.head?.all isStop

/-- The bytes at which no word or group starts. -/
def isStill (b : UInt8) : Bool := !isInk b || isStop b

lemma isStill_of_isSpace {w : Text} (hw : IsSpace w) : w.all isStill :=
  List.all_eq_true.mpr fun b hb => by simp [isStill, hw.isInk_of_mem hb]

lemma isNamePart_of_isInk {b : UInt8} (hb : isInk b = false) : isNamePart b = false :=
  Bool.eq_false_iff.mpr fun h => by simp [isInk_of_isNamePart h] at hb

lemma of_isStill {b : UInt8} (hb : isStill b) : isIdentStart b = false ∧ b ≠ ascii '(' := by
  have hname : isNamePart b = false := by
    rcases Bool.or_eq_true_iff.mp hb with hink | hstop
    · exact isNamePart_of_isInk (by simpa using hink)
    · simp_all [isStop]
  refine ⟨?_, ne_of_class hb (by decide)⟩
  simp only [isNamePart, isIdentPart, Bool.or_eq_false_iff] at hname
  exact hname.1.1

lemma of_isStop {b : UInt8} (hb : isStop b) : isInk b ∧ isGap b = false ∧ isStill b ∧
    isNamePart b = false ∧ b ≠ ascii ':' ∧ b ≠ ascii '@' ∧ isContinuation b = false := by
  have hstill : isStill b := by simp [isStill, hb]
  simp only [isStop, Bool.and_eq_true, Bool.not_eq_true', bne_iff_ne] at hb
  obtain ⟨⟨⟨⟨hink, hname⟩, hcolon⟩, hat⟩, -⟩ := hb
  exact ⟨hink, isGap_of_isInk hink, hstill, hname, hcolon, hat, isContinuation_of_isInk hink⟩

namespace Stops

lemma cons {k : UInt8} (hk : isStop k) (x : Text) : Stops (k :: x) := ⟨[], k :: x, rfl, .nil, hk⟩

lemma nil : Stops [] := ⟨[], [], rfl, .nil, rfl⟩

lemma of_space {w : Text} (hw : IsSpace w) : Stops w := ⟨w, [], by simp, hw, rfl⟩

lemma space_append {w t : Text} (hw : IsSpace w) (ht : Stops t) : Stops (w ++ t) := by
  obtain ⟨v, r, rfl, hv, hr⟩ := ht
  exact ⟨w ++ v, r, by simp, hw.append hv, hr⟩

variable {t : Text} (ht : Stops t)
include ht

lemma trimStart_head? : (trimStart t).head?.all isStop := by
  obtain ⟨w, r, rfl, hw, hr⟩ := ht
  rw [trimStart_space hw]
  cases r with
  | nil => rfl
  | cons b r =>
    rw [trimStart_ink (of_isStop (by simpa using hr)).1]
    exact hr

lemma skipGaps_head? : (skipGaps t).head?.all isStill := by
  obtain ⟨w, r, rfl, hw, hr⟩ := ht
  have hstill : ∀ b ∈ w, isStill b = true := List.all_eq_true.mp (isStill_of_isSpace hw)
  rw [skipGaps_append_eq]
  split
  · cases r with
    | nil => rfl
    | cons b r =>
      obtain ⟨-, hgap, hb, -⟩ := of_isStop (b := b) (by simpa using hr)
      simp [skipGaps, hgap, hb]
  · next hne =>
    rw [List.head?_append_of_ne_nil _ hne]
    cases hs : skipGaps w with
    | nil => rfl
    | cons b s =>
      have hsuffix : skipGaps w <:+ w := List.dropWhile_suffix isGap
      have hmem : b ∈ w := hsuffix.subset (by simp [hs])
      simpa using hstill b hmem

lemma skipGaps_head?_ne : (skipGaps t).head? ≠ some (ascii '(') := by
  intro h
  have hstill := skipGaps_head? ht
  rw [h] at hstill
  exact absurd hstill (by decide)

lemma head?_isContinuation : t.head?.any isContinuation = false := by
  obtain ⟨w, r, rfl, hw, hr⟩ := ht
  by_cases hne : w = []
  · subst hne
    cases r with
    | nil => rfl
    | cons b r => simpa using (of_isStop (b := b) (by simpa using hr)).2.2.2.2.2.2
  · rw [List.head?_append_of_ne_nil _ hne]
    exact hw.head?

lemma isTail : isTail t := by
  have hspace : ∀ b, isInk b = false → isNamePart b = false ∧ b ≠ ascii ':' := by
    refine fun b hb => ⟨isNamePart_of_isInk hb, ?_⟩
    rintro rfl
    exact absurd hb (by decide)
  have hcontinuation := ht.head?_isContinuation
  have hopen := ht.skipGaps_head?_ne
  obtain ⟨w, r, rfl, hw, hr⟩ := ht
  cases hcase : w ++ r with
  | nil => rfl
  | cons b s =>
    rw [hcase] at hcontinuation hopen
    have hb : isNamePart b = false ∧ b ≠ ascii ':' := by
      cases w with
      | nil =>
        rw [List.nil_append] at hcase
        rw [hcase] at hr
        obtain ⟨-, -, -, hname, hcolon, -⟩ := of_isStop (b := b) (by simpa using hr)
        exact ⟨hname, hcolon⟩
      | cons c w =>
        obtain ⟨rfl, -⟩ := List.cons.inj hcase
        exact hspace c (hw.isInk_of_mem (by simp))
    have hcont : isContinuation b = false := by simpa using hcontinuation
    simp [Declaration.isTail, hb, hcont, hopen]

/-- No word starts where reading stops. -/
lemma leadingIdent_append (s : Text) : leadingIdent (s ++ t) = leadingIdent s := by
  rw [leadingIdent, leadingIdent, skipGaps_append_eq]
  split
  · next hs =>
    rw [hs]
    have hstill := ht.skipGaps_head?
    cases hcase : skipGaps t with
    | nil => rfl
    | cons b r =>
      rw [hcase] at hstill
      exact identAt_eq_nil (of_isStill (b := b) (by simpa using hstill)).1 r
  · next hs => exact identAt_append_tail ht.isTail hs

/-- There is neither annotation nor modifier where reading stops. -/
lemma leadingMarks? {isModifier : Text → Bool} (hempty : isModifier [] = false) :
    leadingMarks? spaces isModifier t = some ([], trimStart t) := by
  obtain ⟨w, r, rfl, hw, hr⟩ := ht
  have hpass : Declaration.leadingMarks? spaces isModifier (w ++ r) =
      Declaration.leadingMarks? spaces isModifier r := by
    induction hw with
    | nil => rfl
    | char he _ ih =>
      rw [List.append_assoc, leadingMarks?_blank isCode_spaces he (ne_nil_of_mem_spaces he), ih]
  rw [hpass, trimStart_space hw]
  cases r with
  | nil => rfl
  | cons b r =>
    obtain ⟨hink, -, hstill, -, -, hat, -⟩ := of_isStop (b := b) (by simpa using hr)
    have hident := identAt_eq_nil (of_isStill hstill).1 r
    rw [trimStart_ink hink]
    exact leadingMarks?_stop areBlank_spaces hink hat (by rwa [hident])

end Stops

end DtoSchema.Declaration
