import DtoSchema.Proofs.Source.Normalization
import DtoSchema.Proofs.Declaration.MarkSyntax

/-!
# Annotations in texts with emptied strings

An annotation at the start of a text and the one at the start of its elision have the same target and
name, and corresponding arguments.  So the readers of annotations stop at corresponding places.
-/

namespace DtoSchema.Declaration

open Text Source

variable {ok : Text → Bool} {m : Spacing} {s r : Text}

/-! ### Names -/

/-- The bytes of names belong to no block. -/
lemma isQuiet_of_isNamePart {b : UInt8} (hb : isNamePart b) : Spacing.isQuiet b := by
  simp only [Spacing.isQuiet, Bool.and_eq_true, bne_iff_ne]
  exact ⟨⟨ne_of_class hb (by decide), ne_of_class hb (by decide)⟩, ne_of_class hb (by decide)⟩

/-- A text is the name at its start and what follows. -/
lemma nameSpan_append (s : Text) : (Mark.nameSpan s).1 ++ (Mark.nameSpan s).2 = s := by
  induction s with
  | nil => rfl
  | cons b s ih =>
    rw [Mark.nameSpan]
    split
    · exact congrArg (b :: ·) ih
    · rfl

lemma nameSpan_all (s : Text) : (Mark.nameSpan s).1.all isNamePart := by
  induction s with
  | nil => rfl
  | cons b s ih =>
    rw [Mark.nameSpan]
    split
    · next hb =>
      simp only [consFirst, List.all_cons, ih, Bool.and_true, isNamePart]
      simp only [Bool.or_eq_true, Bool.and_eq_true] at hb ⊢
      exact hb.imp_right And.left
    · rfl

/-- The same name starts a text and its elision. -/
lemma nameSpan_elides (h : Elides ok m.base s r) :
    (Mark.nameSpan s).1 = (Mark.nameSpan r).1 ∧
      Elides ok m.base (Mark.nameSpan s).2 (Mark.nameSpan r).2 := by
  generalize hk : m.base = k at h ⊢
  induction h with
  | nil => exact ⟨rfl, .nil⟩
  | @byte k b s r h ih =>
    subst hk
    rw [Mark.nameSpan, Mark.nameSpan, ← h.head?_eq]
    split
    · next hb =>
      have hpart : isNamePart b := by
        simp only [isNamePart, Bool.or_eq_true, Bool.and_eq_true] at hb ⊢
        exact hb.imp_right And.left
      have hnext : m.base.next b = m.base := by
        rw [Spacing.next_eq_base _ (isQuiet_of_isNamePart hpart), Spacing.base_base]
      obtain ⟨hname, hrest⟩ := ih hnext.symm
      exact ⟨congrArg (b :: ·) hname, hnext ▸ hrest⟩
    · exact ⟨rfl, .byte b h⟩
  | @string k c s r hc hok h _ =>
    have hquote : ∀ t : Text, Mark.nameSpan (ascii '"' :: t) = ([], ascii '"' :: t) := fun _ => rfl
    rw [hquote, hquote]
    exact ⟨rfl, .string hc hok h⟩
  | blanks => cases m <;> simp [Spacing.base] at hk

/-- The name after a colon. -/
lemma eq_of_afterColon? {name rest : Text} (h : Mark.afterColon? s = some (name, rest)) :
    s = ascii ':' :: (name ++ rest) ∧ name.all isNamePart := by
  cases s with
  | nil => simp [Mark.afterColon?] at h
  | cons b s =>
    rw [Mark.afterColon?] at h
    split at h
    · next hb =>
      have hspan : Mark.nameSpan s = (name, rest) := Option.some.inj h
      have happend := nameSpan_append s
      have hall := nameSpan_all s
      rw [hspan] at happend hall
      exact ⟨by rw [hb.1, ← happend], hall⟩
    · simp at h

lemma afterColon?_elides (h : Elides ok m.base s r) :
    Option.Rel (fun a b => a.1 = b.1 ∧ Elides ok m.base a.2 b.2) (Mark.afterColon? s)
      (Mark.afterColon? r) := by
  have hhead := h.head?_eq
  cases s with
  | nil =>
    obtain rfl := h.eq_nil_iff.mp rfl
    exact .none
  | cons b s =>
    by_cases hb : b = ascii ':'
    · subst hb
      obtain ⟨r', rfl, h'⟩ := h.of_cons (by decide) fun _ => by decide
      rw [Spacing.next_eq_base _ (by decide), Spacing.base_base] at h'
      rw [Mark.afterColon?, Mark.afterColon?, ← h'.head?_eq]
      split
      · exact .some (nameSpan_elides h')
      · exact .none
    · cases r with
      | nil => simp at hhead
      | cons c r =>
        obtain rfl : b = c := by simpa using hhead
        simp [Mark.afterColon?, hb]

/-! ### One annotation -/

/-- The annotation with a given target, name and heading, read from what stands behind the heading. -/
def readArguments (target name heading rest : Text) : Mark :=
  match readBalanced? (ascii '(') (ascii ')') (skipGaps rest) with
  | some (body, _) => ⟨target, name, some body,
      heading ++ rest.takeWhile isGap ++ ascii '(' :: body ++ ")"⟩
  | none => ⟨target, name, none, heading⟩

lemma take_length_sub (a t : Text) : (a ++ t).take ((a ++ t).length - t.length) = a := by
  simp

/-- An annotation without a target. -/
lemma read?_name {s : Text} (hname : (Mark.nameSpan s).1 ≠ [])
    (hcolon : Mark.afterColon? (Mark.nameSpan s).2 = none) :
    Mark.read? (ascii '@' :: s) = some (readArguments [] (Mark.nameSpan s).1
      (ascii '@' :: (Mark.nameSpan s).1) (Mark.nameSpan s).2) := by
  have htake := take_length_sub (ascii '@' :: (Mark.nameSpan s).1) (Mark.nameSpan s).2
  rw [List.cons_append, nameSpan_append, List.length_cons] at htake
  simp only [Mark.read?, ne_eq, not_true, if_false, List.isEmpty_iff, hname, hcolon, htake]
  unfold readArguments
  cases readBalanced? (ascii '(') (ascii ')') (skipGaps (Mark.nameSpan s).2) <;> rfl

/-- An annotation with a target. -/
lemma read?_target {s name rest : Text} (hname : (Mark.nameSpan s).1 ≠ [])
    (hcolon : Mark.afterColon? (Mark.nameSpan s).2 = some (name, rest)) :
    Mark.read? (ascii '@' :: s) = some (readArguments (Mark.nameSpan s).1 name
      (ascii '@' :: ((Mark.nameSpan s).1 ++ ascii ':' :: name)) rest) := by
  have happend := nameSpan_append s
  rw [(eq_of_afterColon? hcolon).1] at happend
  have htake := take_length_sub (ascii '@' :: ((Mark.nameSpan s).1 ++ ascii ':' :: name)) rest
  rw [List.cons_append, List.append_assoc, List.cons_append, happend, List.length_cons] at htake
  simp only [Mark.read?, ne_eq, not_true, if_false, List.isEmpty_iff, hname, hcolon, htake]
  unfold readArguments
  cases readBalanced? (ascii '(') (ascii ')') (skipGaps rest) <;> rfl

/-- The annotations `a` and `b` at the starts of two texts differ only in what their arguments hold
between quotes, and so do the texts behind them. -/
structure MarkPair (ok : Text → Bool) (m : Spacing) (s r : Text) (a b : Mark) : Prop where
  target : a.target = b.target
  name : a.name = b.name
  body : Option.Rel (Elides ok m.base) a.body b.body
  text : Elides ok m a.text b.text
  ne_nil : a.text ≠ []
  rest : ∃ s' r', s = a.text ++ s' ∧ r = b.text ++ r' ∧ Elides ok m.most s' r'

lemma MarkPair.ne_nil_right {a b : Mark} (h : MarkPair ok m s r a b) : b.text ≠ [] :=
  fun hb => h.ne_nil (h.text.eq_nil_iff.mpr hb)

lemma readArguments_elides (target name : Text) {heading : Text} (hne : heading ≠ [])
    (hheading : heading.foldl Spacing.next m = m.base) (h : Elides ok m.base s r) :
    MarkPair ok m (heading ++ s) (heading ++ r) (readArguments target name heading s)
      (readArguments target name heading r) := by
  have hblock := h.skipGaps.parens
  simp only [Spacing.base_most, Spacing.base_base] at hblock
  unfold readArguments
  rcases rel_cases hblock with ⟨hs, hr⟩ | ⟨⟨body, s'⟩, ⟨body', r'⟩, hs, hr, hbody, hrest⟩
  · simp only [hs, hr]
    exact ⟨rfl, rfl, .none, .refl heading, hne, s, r, rfl, rfl, by simpa using h.most⟩
  · simp only [hs, hr]
    have hgap := h.takeWhile (p := isGap) (by decide)
    have hsplit : ∀ {t body t' : Text},
        readBalanced? (ascii '(') (ascii ')') (skipGaps t) = some (body, t') →
        t = t.takeWhile isGap ++ ascii '(' :: (body ++ ascii ')' :: t') := by
      intro t body t' ht
      rw [← eq_of_readBalanced? ht]
      exact List.takeWhile_append_dropWhile.symm
    have harguments : Elides ok m.base (ascii '(' :: (body ++ [ascii ')']))
        (ascii '(' :: (body' ++ [ascii ')'])) := by
      refine .byte _ ?_
      rw [Spacing.next_eq_base _ (by decide), Spacing.base_base]
      exact hbody.append (.refl _)
    refine ⟨rfl, rfl, .some hbody, ?_, by simp, s', r', ?_, ?_, by simpa using hrest⟩
    · have htext : Elides ok (heading.foldl Spacing.next m)
          (s.takeWhile isGap ++ ascii '(' :: (body ++ [ascii ')']))
          (r.takeWhile isGap ++ ascii '(' :: (body' ++ [ascii ')'])) := by
        rw [hheading]
        exact hgap.append (by simpa using harguments)
      simpa [utf8_closeParen] using htext.prepend heading
    · conv_lhs => rw [hsplit hs]
      simp [utf8_closeParen]
    · conv_lhs => rw [hsplit hr]
      simp [utf8_closeParen]

/-- The annotations at the starts of a text and its elision. -/
theorem read?_elides (h : Elides ok m s r) :
    Option.Rel (MarkPair ok m s r) (Mark.read? s) (Mark.read? r) := by
  have hhead := h.head?_eq
  cases s with
  | nil =>
    obtain rfl := h.eq_nil_iff.mp rfl
    exact .none
  | cons b s =>
    by_cases hb : b = ascii '@'
    · subst hb
      obtain ⟨r, rfl, h'⟩ := h.of_cons (by decide) fun _ => by decide
      rw [Spacing.next_eq_base _ (by decide)] at h'
      obtain ⟨hname, hrest⟩ := nameSpan_elides h'
      by_cases hempty : (Mark.nameSpan s).1 = []
      · have hnone : ∀ t : Text, (Mark.nameSpan t).1 = [] → Mark.read? (ascii '@' :: t) = none := by
          intro t ht
          simp [Mark.read?, ht]
        rw [hnone s hempty, hnone r (hname ▸ hempty)]
        exact .none
      -- the heading holds no blank
      have hheading : ∀ {a : Text}, (∀ b ∈ a, isNamePart b ∨ b = ascii ':') →
          (ascii '@' :: a).foldl Spacing.next m = m.base := by
        intro a ha
        refine Spacing.foldl_eq_base m (by simp) (List.all_eq_true.mpr fun b hb => ?_)
        rcases List.mem_cons.mp hb with rfl | hb
        · decide
        · rcases ha b hb with hb | rfl
          · exact isQuiet_of_isNamePart hb
          · decide
      have hall := List.all_eq_true.mp (nameSpan_all s)
      rcases rel_cases (afterColon?_elides hrest) with ⟨hs, hr⟩ |
        ⟨⟨name, rest⟩, ⟨name', rest'⟩, hs, hr, heq, hrest'⟩
      · rw [read?_name hempty hs, read?_name (hname ▸ hempty) hr, ← hname]
        have hpair := readArguments_elides [] (Mark.nameSpan s).1 (List.cons_ne_nil _ _)
          (hheading fun b hb => Or.inl (hall b hb)) hrest
        have happend : (Mark.nameSpan s).1 ++ (Mark.nameSpan r).2 = r := by
          rw [hname, nameSpan_append]
        rw [List.cons_append, List.cons_append, nameSpan_append, happend] at hpair
        exact .some hpair
      · obtain rfl : name = name' := heq
        obtain ⟨hrests, hnames⟩ := eq_of_afterColon? hs
        rw [read?_target hempty hs, read?_target (hname ▸ hempty) hr, ← hname]
        have hbytes : ∀ b ∈ (Mark.nameSpan s).1 ++ ascii ':' :: name,
            isNamePart b ∨ b = ascii ':' := by
          intro b hb
          rcases List.mem_append.mp hb with hb | hb
          · exact Or.inl (hall b hb)
          · rcases List.mem_cons.mp hb with hb | hb
            · exact Or.inr hb
            · exact Or.inl (List.all_eq_true.mp hnames b hb)
        have hpair := readArguments_elides (Mark.nameSpan s).1 name (List.cons_ne_nil _ _)
          (hheading hbytes) hrest'
        have happend : ∀ {first rest : Text}, first ++ ascii ':' :: name ++ rest =
            first ++ ascii ':' :: (name ++ rest) := by simp
        rw [List.cons_append, List.cons_append, happend, happend, ← hrests, nameSpan_append, hname,
          ← (eq_of_afterColon? hr).1, nameSpan_append] at hpair
        exact .some (hname ▸ hpair)
    · cases r with
      | nil => simp at hhead
      | cons c r =>
        obtain rfl : b = c := by simpa using hhead
        rw [read?_eq_none hb, read?_eq_none hb]
        exact .none

/-! ### Several annotations -/

lemma head?_skipGaps (s : Text) : (skipGaps s).head?.any isGap = false := by
  unfold skipGaps
  cases hs : s.dropWhile isGap with
  | nil => rfl
  | cons b t =>
    have hb := List.head_dropWhile_not isGap (l := s) (by simp [hs])
    simpa [hs] using hb

lemma afterLeading_skipGaps (s : Text) :
    Mark.afterLeading (skipGaps s) = Mark.afterLeading s := by
  induction s with
  | nil => rfl
  | cons b s ih =>
    by_cases hb : isGap b
    · have hstep : Mark.afterLeading (b :: s) = Mark.afterLeading s := by
        rw [Mark.afterLeading, Mark.afterLeadingFrom, if_pos hb]
        rfl
      rw [hstep, ← ih, skipGaps, List.dropWhile_cons_of_pos hb]
      rfl
    · simp [skipGaps, hb]

lemma afterLeading_mark {a : Mark} {t : Text} (h : Mark.read? (a.text ++ t) = some a)
    (hne : a.text ≠ []) (hgap : (a.text ++ t).head?.any isGap = false) :
    Mark.afterLeading (a.text ++ t) = Mark.afterLeading t := by
  obtain ⟨b, u, hu⟩ := List.exists_cons_of_ne_nil hne
  rw [hu, List.cons_append] at h hgap ⊢
  rw [Mark.afterLeading, Mark.afterLeadingFrom, if_neg (by simpa using hgap), h]
  simp only [hu]
  exact afterLeadingFrom_pass u t

lemma afterLeading_stop {s : Text} (hgap : s.head?.any isGap = false) (h : Mark.read? s = none) :
    Mark.afterLeading s = s := by
  cases s with
  | nil => rfl
  | cons b s => rw [Mark.afterLeading, Mark.afterLeadingFrom, if_neg (by simpa using hgap), h]

/-- The annotations at the starts of a text and its elision end at corresponding places. -/
theorem afterLeading_elides (h : Elides ok m s r) :
    Elides ok m.most (Mark.afterLeading s) (Mark.afterLeading r) := by
  induction hn : s.length using Nat.strong_induction_on generalizing m s r with
  | _ n ih =>
    have hlength : (skipGaps s).length ≤ s.length := (List.dropWhile_sublist isGap).length_le
    have hgaps := head?_skipGaps s
    have hgapr := head?_skipGaps r
    have hskip := h.skipGaps
    rw [← afterLeading_skipGaps s, ← afterLeading_skipGaps r]
    generalize skipGaps s = s at hlength hgaps hskip ⊢
    generalize skipGaps r = r at hgapr hskip ⊢
    rcases rel_cases (read?_elides hskip) with ⟨hs, hr⟩ | ⟨a, b, hs, hr, hpair⟩
    · rwa [afterLeading_stop hgaps hs, afterLeading_stop hgapr hr]
    · obtain ⟨s', r', rfl, rfl, h'⟩ := hpair.rest
      have hpos := List.length_pos_iff.mpr hpair.ne_nil
      rw [afterLeading_mark hs hpair.ne_nil hgaps, afterLeading_mark hr hpair.ne_nil_right hgapr]
      simp only [List.length_append] at hlength
      simpa using ih s'.length (by omega) h' rfl

lemma readAll_none {b : UInt8} {s : Text} (h : Mark.read? (b :: s) = none) :
    Mark.readAll (b :: s) = Mark.readAll s := by
  rw [Mark.readAll, Mark.readAllFrom, h]
  rfl

lemma readAll_skip {a : Text} (ha : ascii '@' ∉ a) (t : Text) :
    Mark.readAll (a ++ t) = Mark.readAll t := by
  induction a with
  | nil => rfl
  | cons b a ih =>
    simp only [List.mem_cons, not_or] at ha
    rw [List.cons_append, readAll_none (read?_eq_none (Ne.symm ha.1) _), ih ha.2]

lemma readAll_mark {a : Mark} {t : Text} (h : Mark.read? (a.text ++ t) = some a)
    (hne : a.text ≠ []) : Mark.readAll (a.text ++ t) = a :: Mark.readAll t := by
  obtain ⟨b, u, hu⟩ := List.exists_cons_of_ne_nil hne
  rw [hu, List.cons_append] at h ⊢
  rw [Mark.readAll, Mark.readAllFrom, h]
  simp only [hu]
  exact congrArg (a :: ·) (readAllFrom_pass u t)

/-- No annotation starts in a string. -/
lemma at_not_mem_string {c : Text} (hc : c.all isInert) :
    ascii '@' ∉ ascii '"' :: (c ++ [ascii '"']) := by
  have hc' : ascii '@' ∉ c := fun h => absurd (List.all_eq_true.mp hc _ h) (by decide)
  have hne : ascii '@' ≠ ascii '"' := by decide
  simp [hc', hne]

lemma at_not_mem_blanks (n : ℕ) : ascii '@' ∉ List.replicate n (ascii ' ') := fun hmem =>
  absurd (List.eq_of_mem_replicate hmem) (by decide)

/-- Two annotations have the same target and name. -/
def SameName (a b : Mark) : Prop := a.target = b.target ∧ a.name = b.name

/-- The same annotations stand in a text and its elision, up to their arguments. -/
theorem readAll_elides (h : Elides ok m s r) :
    List.Forall₂ SameName (Mark.readAll s) (Mark.readAll r) := by
  induction hn : s.length using Nat.strong_induction_on generalizing m s r with
  | _ n ih =>
    rcases rel_cases (read?_elides h) with ⟨hs, hr⟩ | ⟨a, b, hs, hr, hpair⟩
    · cases h with
      | nil => exact .nil
      | @byte _ b s r h =>
        rw [readAll_none hs, readAll_none hr]
        exact ih s.length (by simp only [List.length_cons] at hn; omega) h rfl
      | @string _ c s r hc _ h =>
        have hpass : ∀ {c : Text}, c.all isInert → ∀ t : Text,
            Mark.readAll (ascii '"' :: (c ++ ascii '"' :: t)) = Mark.readAll t := by
          intro c hc t
          simpa using readAll_skip (at_not_mem_string hc) t
        have hempty := hpass (c := []) rfl r
        rw [List.nil_append] at hempty
        rw [hpass hc, hempty]
        exact ih s.length (by simp only [List.length_cons, List.length_append] at hn; omega) h rfl
      | @blanks k s r h =>
        have hpass : ∀ (k : ℕ) (t : Text),
            Mark.readAll (List.replicate k (ascii ' ') ++ t) = Mark.readAll t :=
          fun k t => readAll_skip (at_not_mem_blanks k) t
        have hone := hpass 1 r
        rw [hpass, show ascii ' ' :: r = List.replicate 1 (ascii ' ') ++ r from rfl, hone]
        refine ih s.length ?_ h rfl
        simp only [List.length_append, List.length_replicate] at hn
        omega
    · obtain ⟨s', r', rfl, rfl, h'⟩ := hpair.rest
      have hpos := List.length_pos_iff.mpr hpair.ne_nil
      rw [readAll_mark hs hpair.ne_nil, readAll_mark hr hpair.ne_nil_right]
      simp only [List.length_append] at hn
      exact .cons ⟨hpair.target, hpair.name⟩ (ih s'.length (by omega) h' rfl)

/-! ### Targets -/

/-- A target that makes no difference is dropped. -/
lemma dropTargets_target {w : Text} (hw : w = utf8 "field:" ∨ w = utf8 "get:") (t : Text) :
    Constraints.dropTargets (ascii '@' :: (w ++ t)) = ascii '@' :: Constraints.dropTargets t := by
  have hpass : ∀ a : Text,
      Constraints.dropTargetsFrom a.length (a ++ t) = Constraints.dropTargets t := by
    intro a
    induction a with
    | nil => rfl
    | cons b a ih => simpa [Constraints.dropTargetsFrom] using ih
  rcases hw with rfl | rfl
  · exact congrArg (ascii '@' :: ·) (hpass (utf8 "field:"))
  · exact congrArg (ascii '@' :: ·) (hpass (utf8 "get:"))

lemma dropTargets_stay {b : UInt8} {s : Text}
    (hfield : (utf8 "@field:").isPrefixOf (b :: s) = false)
    (hget : (utf8 "@get:").isPrefixOf (b :: s) = false) :
    Constraints.dropTargets (b :: s) = b :: Constraints.dropTargets s := by
  rw [Constraints.dropTargets, Constraints.dropTargetsFrom, hfield, if_neg (by simp), hget,
    if_neg (by simp)]
  rfl

lemma dropTargets_append {a : Text} (ha : ascii '@' ∉ a) (t : Text) :
    Constraints.dropTargets (a ++ t) = a ++ Constraints.dropTargets t := by
  induction a with
  | nil => rfl
  | cons b a ih =>
    simp only [List.mem_cons, not_or] at ha
    rw [List.cons_append, dropTargets_stay, ih ha.2]
    · rfl
    · simp [utf8_fieldTarget, List.isPrefixOf, ha.1]
    · simp [utf8_getTarget, List.isPrefixOf, ha.1]

theorem dropTargets_elides (h : Elides ok m s r) :
    Elides ok m (Constraints.dropTargets s) (Constraints.dropTargets r) := by
  induction hn : s.length using Nat.strong_induction_on generalizing m s r with
  | _ n ih =>
    have htarget : ∀ {w : Text}, (w = utf8 "field:" ∨ w = utf8 "get:") →
        (ascii '@' :: w).isPrefixOf s →
        Elides ok m (Constraints.dropTargets s) (Constraints.dropTargets r) := by
      intro w hw hs
      have hsteady : Elides.isSteady (ascii '@' :: w) ∧ (ascii '@' :: w).all Spacing.isQuiet := by
        rcases hw with rfl | rfl <;> decide
      obtain ⟨s', rfl⟩ := List.isPrefixOf_iff_prefix.mp hs
      obtain ⟨r', rfl, h'⟩ := h.of_append hsteady.1
      rw [Spacing.foldl_eq_base m (by simp) hsteady.2] at h'
      rw [List.cons_append, List.cons_append, dropTargets_target hw, dropTargets_target hw]
      refine .byte _ ?_
      rw [Spacing.next_eq_base _ (by decide)]
      refine ih s'.length ?_ h' rfl
      simp only [List.length_append, List.length_cons] at hn
      omega
    by_cases hs : (utf8 "@field:").isPrefixOf s
    · exact htarget (Or.inl rfl) (utf8_fieldTarget ▸ hs)
    by_cases hs' : (utf8 "@get:").isPrefixOf s
    · exact htarget (Or.inr rfl) (utf8_getTarget ▸ hs')
    have hr := h.isPrefixOf_eq (p := utf8 "@field:") (by decide)
    have hr' := h.isPrefixOf_eq (p := utf8 "@get:") (by decide)
    rw [Bool.not_eq_true] at hs hs'
    rw [hs] at hr
    rw [hs'] at hr'
    cases h with
    | nil => exact .nil
    | @byte _ b s r h =>
      rw [dropTargets_stay hs hs', dropTargets_stay hr.symm hr'.symm]
      exact .byte b (ih s.length (by simp only [List.length_cons] at hn; omega) h rfl)
    | @string _ c s r hc hok h =>
      have hquote : ∀ {c : Text}, c.all isInert → ∀ t : Text,
          Constraints.dropTargets (ascii '"' :: (c ++ ascii '"' :: t)) =
            ascii '"' :: (c ++ ascii '"' :: Constraints.dropTargets t) := by
        intro c hc t
        simpa using dropTargets_append (at_not_mem_string hc) t
      have hempty := hquote (c := []) rfl r
      rw [List.nil_append, List.nil_append] at hempty
      rw [hquote hc, hempty]
      refine .string hc hok (ih s.length ?_ h rfl)
      simp only [List.length_cons, List.length_append] at hn
      omega
    | @blanks k s r h =>
      have hrun : ∀ (k : ℕ) (t : Text),
          Constraints.dropTargets (List.replicate k (ascii ' ') ++ t) =
            List.replicate k (ascii ' ') ++ Constraints.dropTargets t :=
        fun k t => dropTargets_append (at_not_mem_blanks k) t
      have hone := hrun 1 r
      rw [hrun, show ascii ' ' :: r = List.replicate 1 (ascii ' ') ++ r from rfl, hone]
      refine .blanks k (ih s.length ?_ h rfl)
      simp only [List.length_append, List.length_replicate] at hn
      omega

/-! ### Annotations and modifiers -/

section LeadingMarks

variable {blanks : List Text} {isModifier : Text → Bool}

lemma leadingMarks?_blank (hcode : isCode blanks) {e : Text} (he : e ∈ blanks) (hne : e ≠ [])
    (t : Text) : leadingMarks? blanks isModifier (e ++ t) = leadingMarks? blanks isModifier t := by
  have hwidth := leadingWidth_append hcode he t
  obtain ⟨b, u, rfl⟩ := List.exists_cons_of_ne_nil hne
  rw [List.cons_append, List.length_cons] at hwidth
  rw [leadingMarks?, List.cons_append, leadingMarksFrom?, hwidth]
  exact leadingMarksFrom?_pass blanks isModifier u t

lemma leadingMarks?_mark {a : Mark} {t : Text} (hwidth : leadingWidth blanks (a.text ++ t) = 0)
    (hne : a.text ≠ []) (hat : (a.text ++ t).head? = some (ascii '@'))
    (h : Mark.read? (a.text ++ t) = some a) :
    leadingMarks? blanks isModifier (a.text ++ t) =
      (leadingMarks? blanks isModifier t).map fun x => (a.text ++ " " ++ x.1, x.2) := by
  obtain ⟨b, u, hu⟩ := List.exists_cons_of_ne_nil hne
  rw [hu, List.cons_append] at hwidth hat h
  have hb : b = ascii '@' := by simpa using hat
  have hpass := leadingMarksFrom?_pass blanks isModifier u t
  have htext : a.text ++ t = b :: (u ++ t) := by rw [hu, List.cons_append]
  rw [leadingMarks?, htext, leadingMarksFrom?, hwidth]
  simp only [if_pos hb, h, Option.bind_some, hu, List.length_cons, Nat.add_sub_cancel, hpass]
  rfl

lemma leadingMarks?_none {s : Text} (hwidth : leadingWidth blanks s = 0)
    (hat : s.head? = some (ascii '@')) (h : Mark.read? s = none) :
    leadingMarks? blanks isModifier s = none := by
  cases s with
  | nil => simp at hat
  | cons b s =>
    have hb : b = ascii '@' := by simpa using hat
    rw [leadingMarks?, leadingMarksFrom?, hwidth]
    simp only [if_pos hb, h, Option.bind_none]

lemma leadingMarks?_word {w t : Text} (hwidth : leadingWidth blanks (w ++ t) = 0)
    (hat : (w ++ t).head? ≠ some (ascii '@')) (hw : identAt (w ++ t) = w) (hne : w ≠ [])
    (hmodifier : isModifier w) :
    leadingMarks? blanks isModifier (w ++ t) = leadingMarks? blanks isModifier t := by
  obtain ⟨b, u, rfl⟩ := List.exists_cons_of_ne_nil hne
  rw [List.cons_append] at hwidth hat hw
  have hb : b ≠ ascii '@' := by simpa using hat
  rw [leadingMarks?, List.cons_append, leadingMarksFrom?, hwidth]
  simp only [if_neg hb, hw, hmodifier, if_true, List.length_cons, Nat.add_sub_cancel]
  exact leadingMarksFrom?_pass blanks isModifier u t

lemma leadingMarks?_rest {s : Text} (hwidth : leadingWidth blanks s = 0)
    (hat : s.head? ≠ some (ascii '@')) (h : isModifier (identAt s) = false) :
    leadingMarks? blanks isModifier s = some ([], s) := by
  cases s with
  | nil => rfl
  | cons b s =>
    have hb : b ≠ ascii '@' := by simpa using hat
    rw [leadingMarks?, leadingMarksFrom?, hwidth]
    simp only [if_neg hb, h, Bool.false_eq_true, if_false]

/-- The identifier at the start of a text is a part of it. -/
lemma exists_identAt (s : Text) : ∃ t, s = identAt s ++ t ∧ (identAt s).all isIdentPart := by
  cases s with
  | nil => exact ⟨[], rfl, rfl⟩
  | cons b s =>
    by_cases hb : isIdentStart b
    · refine ⟨s.dropWhile isIdentPart, ?_, ?_⟩
      · simp [identAt, hb]
      · simp [identAt, hb, isIdentPart]
    · exact ⟨b :: s, by simp [identAt, hb], by simp [identAt, hb]⟩

/-- The bytes of identifiers are neither quotes nor spaces. -/
lemma isSteady_of_isIdentPart {w : Text} (hw : w.all isIdentPart) : Elides.isSteady w := by
  rw [List.all_eq_true] at hw
  simp only [Elides.isSteady, Bool.and_eq_true, decide_eq_true_eq]
  exact ⟨fun h => absurd (hw _ h) (by decide), fun h => absurd (hw _ h) (by decide)⟩

/-- The annotations and modifiers at the starts of a text and its elision. -/
theorem leadingMarks?_elides (hblanks : Elides.areSpaces blanks) (hempty : isModifier [] = false)
    (h : Elides ok m s r) :
    Option.Rel (fun x y => Elides ok m.base x.1 y.1 ∧ Elides ok m.most x.2 y.2 ∧
      leadingWidth blanks x.2 = 0) (leadingMarks? blanks isModifier s)
      (leadingMarks? blanks isModifier r) := by
  have hcode := Elides.isCode_of_areSpaces hblanks
  have hspaces : ∀ (n : ℕ) (t : Text), leadingMarks? blanks isModifier
      (List.replicate n (ascii ' ') ++ t) = leadingMarks? blanks isModifier t := by
    intro n t
    induction n with
    | zero => rfl
    | succ n ih =>
      rw [List.replicate_succ, List.cons_append, ← ih]
      exact leadingMarks?_blank hcode (Elides.space_mem hblanks) (by simp) _
  induction hn : s.length using Nat.strong_induction_on generalizing m s r with
  | _ n ih =>
    rcases h.leading_cases hblanks with ⟨hs, hr⟩ | ⟨e, he, s', r', hne, rfl, rfl, h'⟩ |
      ⟨k, s', r', rfl, rfl, h'⟩
    · by_cases hat : s.head? = some (ascii '@')
      · have hat' := h.head?_eq ▸ hat
        rcases rel_cases (read?_elides h) with ⟨hreads, hreadr⟩ | ⟨a, b, hreads, hreadr, hpair⟩
        · rw [leadingMarks?_none hs hat hreads, leadingMarks?_none hr hat' hreadr]
          exact .none
        · obtain ⟨s', r', rfl, rfl, h'⟩ := hpair.rest
          have hne := hpair.ne_nil
          have hpos := List.length_pos_iff.mpr hne
          rw [leadingMarks?_mark hs hne hat hreads,
            leadingMarks?_mark hr hpair.ne_nil_right hat' hreadr]
          simp only [List.length_append] at hn
          have hrest := ih s'.length (by omega) h' rfl
          refine rel_map hrest fun x y hxy => ?_
          have htext : Elides ok m.base a.text b.text := by
            refine hpair.text.base ?_
            rw [List.head?_append_of_ne_nil _ hne] at hat
            rw [hat]
            decide
          simp only [Spacing.base_most, Spacing.most_most] at hxy
          exact ⟨(htext.append (.refl _)).append (by simpa using hxy.1), hxy.2⟩
      · have hat' : r.head? ≠ some (ascii '@') := h.head?_eq ▸ hat
        have hword := h.identAt_eq
        cases hmodifier : isModifier (identAt s) with
        | false =>
          rw [leadingMarks?_rest hs hat hmodifier, leadingMarks?_rest hr hat' (hword ▸ hmodifier)]
          exact .some ⟨.nil, h.most, hs⟩
        | true =>
          have hne : identAt s ≠ [] := by
            intro hnil
            rw [hnil, hempty] at hmodifier
            simp at hmodifier
          obtain ⟨s', hs', hall⟩ := exists_identAt s
          generalize hw : identAt s = w at hs' hall hne hmodifier hword
          subst hs'
          obtain ⟨r', rfl, h'⟩ := h.of_append (isSteady_of_isIdentPart hall)
          have hpos := List.length_pos_iff.mpr hne
          rw [leadingMarks?_word hs hat hw hne hmodifier,
            leadingMarks?_word hr hat' hword.symm hne hmodifier]
          simp only [List.length_append] at hn
          have hrest := ih s'.length (by omega) h'.most rfl
          simpa [Elides.most_foldl] using hrest
    · have hpos := List.length_pos_iff.mpr hne
      rw [leadingMarks?_blank hcode he hne, leadingMarks?_blank hcode he hne]
      simp only [List.length_append] at hn
      simpa using ih s'.length (by omega) h' rfl
    · have hone := hspaces 1 r'
      rw [hspaces, show ascii ' ' :: r' = List.replicate 1 (ascii ' ') ++ r' from rfl, hone]
      simp only [List.length_append, List.length_replicate] at hn
      simpa using ih s'.length (by omega) h' rfl

end LeadingMarks

/-! ### Optional values -/

/-- An annotation makes a value optional by its name alone. -/
lemma nullable_apply (c : Constraints) (a : Mark) :
    (c.apply a).nullable = (c.nullable || a.simpleName == utf8 "Nullable") := by
  simp only [Constraints.apply, apply_ite Constraints.nullable, ite_self]
  by_cases h : a.simpleName = utf8 "Nullable" <;> simp [h]

lemma nullable_add (c : Constraints) (a : Mark) :
    (c.add a).nullable = (c.nullable || (a.target.isEmpty && a.simpleName == utf8 "Nullable")) := by
  unfold Constraints.add
  cases h : a.target.isEmpty
  · simp
  · simp [nullable_apply]

/-- The same annotations make a value optional. -/
lemma nullable_ofJava (h : Elides ok m s r) :
    (Constraints.ofJava s).nullable = (Constraints.ofJava r).nullable := by
  suffices hfold : ∀ {as bs : List Mark}, List.Forall₂ SameName as bs → ∀ c d : Constraints,
      c.nullable = d.nullable →
      (as.foldl Constraints.add c).nullable = (bs.foldl Constraints.add d).nullable from
    hfold (readAll_elides h) {} {} rfl
  intro as bs hsame
  induction hsame with
  | nil => exact fun _ _ h => h
  | @cons a b as bs hab _ ih =>
    intro c d hcd
    refine ih (c.add a) (d.add b) ?_
    rw [nullable_add, nullable_add, hcd, hab.1, Mark.simpleName, Mark.simpleName, hab.2]

lemma nullable_ofKotlin (h : Elides ok m s r) :
    (Constraints.ofKotlin s).nullable = (Constraints.ofKotlin r).nullable := by
  have hdrop : ∀ s : Text, (Constraints.ofKotlin s).nullable =
      (Constraints.ofJava (Constraints.dropTargets s)).nullable := by
    intro s
    cases h : (Mark.readAll (Constraints.dropTargets s)).findSome? Constraints.jsonNameOf? <;>
      simp only [Constraints.ofKotlin, h]
  rw [hdrop, hdrop, nullable_ofJava (dropTargets_elides h)]

end DtoSchema.Declaration
