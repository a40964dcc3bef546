import DtoSchema.Proofs.Source.Elision

/-!
# Scanning texts with emptied strings

The scanners of a source keep track of literals and brackets, or of brackets alone.  This module
shows that each of them cuts a text and its elision at corresponding places: cutting at separators,
searching at the top level, reading a balanced block, looking for a semicolon, and blanking blocks.

The argument is the same for all of them.  A quote takes a scanner from one state to another, inert
bytes leave it there, and the closing quote takes it on; so behind a string a scanner is in the state
in which it is behind the empty string, even if it has taken the string for code.
-/

namespace DtoSchema.Source

open Text

/-! ### States of a scan -/

/-- The state arises when a text is scanned: only quotes open literals. -/
def Quoting.isProper : Quoting → Bool
  | .code => true
  | .inside q => isQuote q
  | .escape q => isQuote q

lemma Quoting.isProper_step {q : Quoting} (hq : q.isProper) (b : UInt8) : (q.step b).isProper := by
  cases q with
  | code =>
    by_cases hb : isQuote b <;> simp [Quoting.step, hb, isProper]
  | inside q =>
    simp only [Quoting.step]
    split
    · exact hq
    · split
      · rfl
      · exact hq
  | escape q => exact hq

/-- The state is not the one right after a backslash. -/
def Quoting.isSettled : Quoting → Bool
  | .escape _ => false
  | _ => true

/-- A byte other than a backslash settles the state. -/
lemma Quoting.isSettled_step (q : Quoting) {b : UInt8} (hb : b ≠ ascii '\\') :
    (q.step b).isSettled := by
  cases q with
  | code => by_cases h : isQuote b <;> simp [Quoting.step, h, isSettled]
  | inside q =>
    rw [Quoting.step, if_neg hb]
    split <;> rfl
  | escape q => rfl

/-- Inert bytes are neither quotes nor backslashes. -/
lemma ne_of_isInert {b : UInt8} (hb : isInert b) : isQuote b = false ∧ b ≠ ascii '\\' := by
  refine ⟨?_, ne_of_class hb (by decide)⟩
  simp only [isInert, Bool.and_eq_true, Bool.not_eq_true'] at hb
  exact hb.1

/-- What follows inert bytes of a class in a string is inert or the closing quote. -/
lemma exists_dropWhile_string {p : UInt8 → Bool} (hp : p (ascii '"') = false) {c : Text}
    (hc : c.all isInert) (t : Text) :
    ∃ d : Text, d.all isInert ∧ (c ++ ascii '"' :: t).dropWhile p = d ++ ascii '"' :: t := by
  induction c with
  | nil => exact ⟨[], rfl, by simp [hp]⟩
  | cons b c ih =>
    by_cases hb : p b
    · simp only [List.all_cons, Bool.and_eq_true] at hc
      obtain ⟨d, hd, heq⟩ := ih hc.2
      exact ⟨d, hd, by simpa [hb] using heq⟩
    · exact ⟨b :: c, hc, by simp [hb]⟩

/-- No parenthesis follows in a string. -/
lemma head?_skipGaps_string {c : Text} (hc : c.all isInert) (t : Text) :
    (skipGaps (c ++ ascii '"' :: t)).head? ≠ some (ascii '(') := by
  obtain ⟨d, hd, heq⟩ := exists_dropWhile_string (p := isGap) (by decide) hc t
  rw [skipGaps, heq]
  intro hhead
  cases d with
  | nil => exact absurd (Option.some.inj hhead) (by decide)
  | cons b d =>
    simp only [List.all_cons, Bool.and_eq_true] at hd
    obtain rfl : b = ascii '(' := by simpa using hhead
    exact absurd hd.1 (by decide)

/-- An inert byte leaves a settled state as it is. -/
lemma Quoting.step_inert {q : Quoting} (hq : q.isProper) (hs : q.isSettled) {b : UInt8}
    (hb : isInert b) : q.step b = q := by
  obtain ⟨hquote, hne⟩ := ne_of_isInert hb
  cases q with
  | code => simp [Quoting.step, hquote]
  | inside q =>
    have hbq : b ≠ q := by
      rintro rfl
      simp [isProper, hquote] at hq
    simp [Quoting.step, hne, hbq]
  | escape q => simp [isSettled] at hs

/-- Neither the brackets of the family nor the separators are inert. -/
structure Ignores (brackets : Brackets) (sep : UInt8 → Bool) : Prop where
  plain : ∀ b, isInert b = true → brackets.isPlain b = true
  sep : ∀ b, isInert b = true → sep b = false

lemma Ignores.of_marks {brackets : Brackets} {sep : UInt8 → Bool} (l : Text)
    (hsep : ∀ b, sep b = true → b ∈ l)
    (h : ([ascii '"', ascii '\''] ++ brackets.opening ++ brackets.closing).all (!isInert ·))
    (hl : l.all (!isInert ·)) : Ignores brackets sep where
  plain b hb := (Brackets.passes_of_class l hsep h hl b hb).1
  sep b hb := (Brackets.passes_of_class l hsep h hl b hb).2

section Scan

variable {brackets : Brackets} {sep : UInt8 → Bool} {c : Text}

lemma Place.step_inert (hi : Ignores brackets sep) {p : Place} (hq : p.quoting.isProper)
    (hs : p.quoting.isSettled) {b : UInt8} (hb : isInert b) : p.step brackets b = p := by
  have hplain := hi.plain b hb
  obtain ⟨q, d⟩ := p
  cases q with
  | code => exact Place.step_plain hplain
  | inside q => rw [Place.step_literal (by simp), Quoting.step_inert hq hs hb]
  | escape q => simp [Quoting.isSettled] at hs

/-- Inert bytes stay in front of what follows. -/
lemma segments_inert (hi : Ignores brackets sep) {p : Place} (hq : p.quoting.isProper)
    (hs : p.quoting.isSettled) (hc : c.all isInert) (t : Text) :
    segments brackets sep p (c ++ t) = glue c (segments brackets sep p t) := by
  induction c with
  | nil => exact (glue_nil (segments_ne_nil p t)).symm
  | cons b c ih =>
    simp only [List.all_cons, Bool.and_eq_true] at hc
    have hcut : p.cutsAt brackets sep b = false := by simp [Place.cutsAt, hi.sep b hc.1]
    rw [List.cons_append, segments_cons hcut, Place.step_inert hi hq hs hc.1, ih hc.2,
      ← glue_append]
    rfl

/-- The place behind a string, whether or not the scan takes it for one. -/
def Place.behindString (brackets : Brackets) (p : Place) : Place :=
  (p.step brackets (ascii '"')).step brackets (ascii '"')

lemma segments_string (hi : Ignores brackets sep) {p : Place} (hq : p.quoting.isProper)
    (hc : c.all isInert) (t : Text) :
    segments brackets sep p (ascii '"' :: (c ++ ascii '"' :: t)) =
      glue (ascii '"' :: (c ++ [ascii '"'])) (segments brackets sep (p.behindString brackets) t) := by
  have hquote : ∀ p : Place, p.cutsAt brackets sep (ascii '"') = false := fun p =>
    Place.cutsAt_eq_false (Brackets.isPlain_quote (by decide))
  have hproper : (p.step brackets (ascii '"')).quoting.isProper := Quoting.isProper_step hq _
  have hsettled : (p.step brackets (ascii '"')).quoting.isSettled :=
    Quoting.isSettled_step p.quoting (by decide)
  rw [segments_cons (hquote p), segments_inert hi hproper hsettled hc,
    segments_cons (hquote _), ← glue_append, ← glue_append]
  simp [Place.behindString]

lemma segments_spaces (hi : Ignores brackets sep) {p : Place} (hq : p.quoting.isProper) (n : ℕ)
    (t : Text) :
    segments brackets sep p (List.replicate (n + 1) (ascii ' ') ++ t) =
      glue (List.replicate (n + 1) (ascii ' '))
        (segments brackets sep (p.step brackets (ascii ' ')) t) := by
  have hinert : isInert (ascii ' ') := by decide
  have hcut : p.cutsAt brackets sep (ascii ' ') = false := by
    simp [Place.cutsAt, hi.sep _ hinert]
  have hproper : (p.step brackets (ascii ' ')).quoting.isProper := Quoting.isProper_step hq _
  have hsettled : (p.step brackets (ascii ' ')).quoting.isSettled :=
    Quoting.isSettled_step p.quoting (by decide)
  rw [List.replicate_succ, List.cons_append, segments_cons hcut,
    segments_inert hi hproper hsettled (by simp [hinert]), ← glue_append]
  simp

end Scan

namespace Elides

variable {ok : Text → Bool} {m : Spacing} {s t r u : Text} {brackets : Brackets}
  {sep : UInt8 → Bool}

/-! ### Cutting at separators -/

/-- The parts into which a text and its elision are cut.  The first parts start where the texts
start, the other ones may start inside of a block. -/
inductive Parts (ok : Text → Bool) (m : Spacing) : List Text → List Text → Prop
  | cons {x y : Text} {xs ys : List Text} : Elides ok m x y →
      List.Forall₂ (Elides ok m.most) xs ys → Parts ok m (x :: xs) (y :: ys)

lemma Parts.forall₂ {xs ys : List Text} (h : Parts ok m xs ys) :
    List.Forall₂ (Elides ok m.most) xs ys := by
  obtain ⟨h, hs⟩ := h
  exact .cons h.most hs

lemma Parts.glue {m' : Spacing} {a a' : Text} {xs ys : List Text} (h : Parts ok m' xs ys)
    (hm : m'.most = m.most)
    (ha : ∀ {x y : Text}, Elides ok m' x y → Elides ok m (a ++ x) (a' ++ y)) :
    Parts ok m (Source.glue a xs) (Source.glue a' ys) := by
  obtain ⟨h, hs⟩ := h
  exact ⟨ha h, hm ▸ hs⟩

/-- A text and its elision are cut at corresponding separators. -/
theorem segments (hi : Ignores brackets sep) (h : Elides ok m s r) {p : Place}
    (hp : p.quoting.isProper) :
    Parts ok m (Source.segments brackets sep p s) (Source.segments brackets sep p r) := by
  induction h generalizing p with
  | nil => exact ⟨.nil, .nil⟩
  | @byte m b s r _ ih =>
    cases hcut : p.cutsAt brackets sep b with
    | true =>
      rw [segments_cut hcut, segments_cut hcut]
      exact ⟨.nil, by simpa using (ih hp).forall₂⟩
    | false =>
      rw [segments_cons hcut, segments_cons hcut]
      exact (ih (Quoting.isProper_step hp b)).glue (by simp) fun h => .byte b h
  | @string m c s r hc hok _ ih =>
    have hempty := segments_string hi hp (show List.all [] isInert from rfl) r
    rw [segments_string hi hp hc, show ascii '"' :: ascii '"' :: r =
      ascii '"' :: ([] ++ ascii '"' :: r) from rfl, hempty]
    refine (ih (Quoting.isProper_step (Quoting.isProper_step hp _) _)).glue (by simp) ?_
    intro x y h
    simpa using Elides.string hc hok h
  | @blanks n s r _ ih =>
    have hone := segments_spaces hi hp 0 r
    rw [segments_spaces hi hp, show ascii ' ' :: r = List.replicate 1 (ascii ' ') ++ r from rfl,
      hone]
    exact (ih (Quoting.isProper_step hp _)).glue rfl fun h => .blanks n h

lemma dropEmptyEnd {xs ys : List Text} (h : List.Forall₂ (Elides ok m) xs ys) :
    List.Forall₂ (Elides ok m) (Source.dropEmptyEnd xs) (Source.dropEmptyEnd ys) := by
  have hlast : xs.getLast? = some [] ↔ ys.getLast? = some [] := by
    have hrev := List.forall₂_reverse_iff.mpr h
    rw [← List.head?_reverse, ← List.head?_reverse]
    generalize xs.reverse = xs at hrev ⊢
    generalize ys.reverse = ys at hrev ⊢
    cases hrev with
    | nil => simp
    | cons hx _ => simpa using hx.eq_nil_iff
  unfold Source.dropEmptyEnd
  by_cases hx : xs.getLast? = some []
  · rw [if_pos hx, if_pos (hlast.mp hx), List.dropLast_eq_take, List.dropLast_eq_take, h.length_eq]
    exact List.forall₂_take _ h
  · rw [if_neg hx, if_neg fun hy => hx (hlast.mpr hy)]
    exact h

lemma ignores_all {target : UInt8} (h : isInert target = false) : Ignores .all (· == target) :=
  .of_marks [target] (by simp) (by decide) (by simp [h])

lemma splitTopLevel {target : UInt8} (htarget : isInert target = false) (h : Elides ok m s r) :
    List.Forall₂ (Elides ok m.most) (Source.splitTopLevel target s)
      (Source.splitTopLevel target r) :=
  dropEmptyEnd (h.segments (ignores_all htarget) rfl).forall₂

end Elides

/-! ### Searching at the top level -/

/-- The search of a byte stops where cutting at it would make the first cut. -/
lemma topLevelFrom_eq_segments (target : UInt8) (p : Place) (s : Text) :
    (topLevelFrom target p s = none ∧ segments .grouping (· == target) p s = [s]) ∨
      ∃ i part parts, topLevelFrom target p s = some i ∧
        segments .grouping (· == target) p s = s.take i :: part :: parts := by
  induction s generalizing p with
  | nil => exact Or.inl ⟨rfl, rfl⟩
  | cons b s ih =>
    cases hcut : p.cutsAt .grouping (· == target) b with
    | true =>
      refine Or.inr ?_
      have hne : segments .grouping (· == target) p s ≠ [] := segments_ne_nil p s
      obtain ⟨part, parts, hparts⟩ := List.exists_cons_of_ne_nil hne
      exact ⟨0, part, parts, by rw [topLevelFrom, if_pos hcut], by
        rw [segments_cut hcut, hparts, List.take_zero]⟩
    | false =>
      rw [topLevelFrom_cons hcut, segments_cons hcut]
      rcases ih (p.step .grouping b) with ⟨hnone, hseg⟩ | ⟨i, part, parts, hsome, hseg⟩
      · exact Or.inl ⟨by rw [hnone, Option.map_none], by rw [hseg]; rfl⟩
      · exact Or.inr ⟨i + 1, part, parts, by rw [hsome, Option.map_some], by rw [hseg]; rfl⟩

namespace Elides

variable {ok : Text → Bool} {m : Spacing} {s t r u : Text}

/-- The same byte is found at the top levels of a text and its elision, behind corresponding texts. -/
lemma topLevel {target : UInt8} (htarget : isInert target = false) (h : Elides ok m s r) :
    (topLevelIndex? target s).isSome = (topLevelIndex? target r).isSome ∧
      Elides ok m (Source.beforeTopLevel target s) (Source.beforeTopLevel target r) := by
  have hignores : Ignores .grouping (· == target) :=
    .of_marks [target] (by simp) (by decide) (by simp [htarget])
  have hseg := h.segments hignores (p := {}) rfl
  unfold Source.beforeTopLevel topLevelIndex?
  rcases topLevelFrom_eq_segments target {} s with ⟨hs, hsegs⟩ | ⟨i, x, xs, hs, hsegs⟩ <;>
    rcases topLevelFrom_eq_segments target {} r with ⟨hr, hsegr⟩ | ⟨j, y, ys, hr, hsegr⟩ <;>
    rw [hsegs, hsegr] at hseg <;> obtain ⟨hfirst, hrest⟩ := hseg
  · simpa [hs, hr] using h
  · simp at hrest
  · simp at hrest
  · simpa [hs, hr] using hfirst

lemma beforeTopLevel {target : UInt8} (htarget : isInert target = false) (h : Elides ok m s r) :
    Elides ok m (Source.beforeTopLevel target s) (Source.beforeTopLevel target r) :=
  (h.topLevel htarget).2

/-! ### Balanced blocks -/

/-- Both parts of a cut text are related to those of its elision. -/
structure Cut (ok : Text → Bool) (m : Spacing) (a b : Text × Text) : Prop where
  first : Elides ok m a.1 b.1
  rest : Elides ok m.most a.2 b.2

lemma Cut.append {m' : Spacing} {a b : Text} {x y : Option (Text × Text)}
    (h : Option.Rel (Cut ok m') x y) (hm : m'.most = m.most)
    (hab : ∀ {x y : Text}, Elides ok m' x y → Elides ok m (a ++ x) (b ++ y)) :
    Option.Rel (Cut ok m) (x.map fun c => (a ++ c.1, c.2)) (y.map fun c => (b ++ c.1, c.2)) := by
  cases h with
  | none => exact .none
  | some h => exact .some ⟨hab h.first, hm ▸ h.rest⟩

end Elides

section Block

variable {opening closing : UInt8} {c : Text}

/-- How a block goes on behind one byte, if the byte does not close it. -/
lemma blockRest?_step {q : Quoting} {d : ℕ} {b : UInt8}
    (h : q = .code → b ≠ opening ∧ b ≠ closing) (s : Text) :
    blockRest? opening closing q d (b :: s) =
      (blockRest? opening closing (q.step b) d s).map (consFirst b) := by
  cases q with
  | code =>
    obtain ⟨ho, hc⟩ := h rfl
    rw [blockRest?_code]
    by_cases hb : isQuote b <;> simp [Quoting.step, hb, ho, hc]
  | inside _ => rfl
  | escape _ => rfl

/-- A block goes on behind inert bytes. -/
lemma blockRest?_inert (ho : isInert opening = false) (hc : isInert closing = false) {q : Quoting}
    (hq : q.isProper) (hs : q.isSettled) {d : ℕ} (hinert : c.all isInert) (t : Text) :
    blockRest? opening closing q d (c ++ t) =
      (blockRest? opening closing q d t).map fun x => (c ++ x.1, x.2) := by
  induction c with
  | nil => simp
  | cons b c ih =>
    simp only [List.all_cons, Bool.and_eq_true] at hinert
    have hne : b ≠ opening ∧ b ≠ closing := by
      constructor <;> rintro rfl <;> simp_all
    rw [List.cons_append, blockRest?_step (fun _ => hne), Quoting.step_inert hq hs hinert.1,
      ih hinert.2, Option.map_map]
    rfl

end Block

namespace Elides

variable {ok : Text → Bool} {m : Spacing} {s t r u : Text}

/-- A block in a text and the one in its elision end at corresponding places. -/
theorem blockRest? {opening closing : UInt8} (ho : isInert opening = false)
    (hc : isInert closing = false) (hquote : isQuote opening = false ∧ isQuote closing = false)
    (h : Elides ok m s r) {q : Quoting} (hq : q.isProper) {d : ℕ} :
    Option.Rel (Cut ok m) (Source.blockRest? opening closing q d s)
      (Source.blockRest? opening closing q d r) := by
  have hne : ascii '"' ≠ opening ∧ ascii '"' ≠ closing := by
    constructor <;> rintro rfl <;> simp_all [isQuote]
  have hspace : ascii ' ' ≠ opening ∧ ascii ' ' ≠ closing := by
    have hinert : isInert (ascii ' ') := by decide
    constructor <;> rintro rfl <;> simp_all
  induction h generalizing q d with
  | nil => exact .none
  | @byte m b s r h ih =>
    -- whatever the byte does to the state, both texts go on in the same one
    have hstep : ∀ {q : Quoting} {d : ℕ}, q.isProper → Option.Rel (Cut ok m)
        ((Source.blockRest? opening closing q d s).map (consFirst b))
        ((Source.blockRest? opening closing q d r).map (consFirst b)) :=
      fun hq => Cut.append (a := [b]) (b := [b]) (ih hq) (by simp) fun h => .byte b h
    cases q with
    | code =>
      rw [blockRest?_code, blockRest?_code]
      split
      · next hb => exact hstep hb
      · split
        · exact hstep rfl
        · split
          · cases d with
            | zero => exact .some ⟨.nil, by simpa using h.most⟩
            | succ d => exact hstep rfl
          · exact hstep rfl
    | inside q => exact hstep (Quoting.isProper_step hq b)
    | escape q => exact hstep (Quoting.isProper_step hq b)
  | @string m c s r hcs hok h ih =>
    have hproper := Quoting.isProper_step hq (ascii '"')
    have hsettled := q.isSettled_step (b := ascii '"') (by decide)
    rw [blockRest?_step fun _ => hne, blockRest?_inert ho hc hproper hsettled hcs,
      blockRest?_step fun _ => hne, blockRest?_step fun _ => hne, blockRest?_step fun _ => hne]
    have hrest := ih (Quoting.isProper_step hproper (ascii '"')) (d := d)
    have hcut := Cut.append (m := m) (a := ascii '"' :: (c ++ [ascii '"']))
      (b := [ascii '"', ascii '"']) hrest (by simp) fun h => by simpa using Elides.string hcs hok h
    simpa [Option.map_map, Function.comp_def, consFirst] using hcut
  | @blanks n s r h ih =>
    have hinert : isInert (ascii ' ') := by decide
    have hproper := Quoting.isProper_step hq (ascii ' ')
    have hsettled := q.isSettled_step (b := ascii ' ') (by decide)
    rw [List.replicate_succ, List.cons_append, blockRest?_step fun _ => hspace,
      blockRest?_inert ho hc hproper hsettled (by simp [hinert]), blockRest?_step fun _ => hspace]
    have hcut := Cut.append (m := .inside) (a := List.replicate (n + 1) (ascii ' '))
      (b := [ascii ' ']) (ih hproper (d := d)) rfl fun h => .blanks n h
    have hcons : consFirst (ascii ' ') = fun x => (ascii ' ' :: x.1, x.2) := rfl
    simpa [Option.map_map, Function.comp_def, hcons, List.replicate_succ] using hcut

lemma readBalanced? {opening closing : UInt8} (ho : isInert opening = false)
    (hc : isInert closing = false) (hquote : isQuote opening = false ∧ isQuote closing = false)
    (h : Elides ok m s r) :
    Option.Rel (Cut ok (m.next opening)) (Source.readBalanced? opening closing s)
      (Source.readBalanced? opening closing r) := by
  have hhead := h.head?_eq
  cases s with
  | nil =>
    obtain rfl := h.eq_nil_iff.mp rfl
    exact .none
  | cons b s =>
    by_cases hb : b = opening
    · subst hb
      have hne : b ≠ ascii '"' := by
        rintro rfl
        exact absurd hquote.1 (by decide)
      have hspace : b ≠ ascii ' ' := (ne_of_class (by decide) ho).symm
      obtain ⟨r', rfl, h'⟩ := h.of_cons hne fun _ => hspace
      simpa [Source.readBalanced?, hquote.1] using h'.blockRest? ho hc hquote rfl
    · cases r with
      | nil => simp at hhead
      | cons c r =>
        obtain rfl : b = c := by simpa using hhead
        simp [Source.readBalanced?, hb]

lemma parens (h : Elides ok m s r) :
    Option.Rel (Cut ok m.base) (Source.readBalanced? (ascii '(') (ascii ')') s)
      (Source.readBalanced? (ascii '(') (ascii ')') r) := by
  rw [← Spacing.next_eq_base m (b := ascii '(') (by decide)]
  exact h.readBalanced? (by decide) (by decide) (by decide)

lemma angles (h : Elides ok m s r) :
    Option.Rel (Cut ok m.base) (Source.readBalanced? (ascii '<') (ascii '>') s)
      (Source.readBalanced? (ascii '<') (ascii '>') r) := by
  rw [← Spacing.next_eq_base m (b := ascii '<') (by decide)]
  exact h.readBalanced? (by decide) (by decide) (by decide)

lemma braces (h : Elides ok m s r) :
    Option.Rel (Cut ok m.most) (Source.readBalanced? (ascii '\x7b') (ascii '\x7d') s)
      (Source.readBalanced? (ascii '\x7b') (ascii '\x7d') r) := by
  have hnext : m.next (ascii '\x7b') = m.most := by cases m <;> rfl
  rw [← hnext]
  exact h.readBalanced? (by decide) (by decide) (by decide)

end Elides

/-! ### Semicolons -/

/-- The numbers of open parentheses and braces behind one more byte. -/
def countBlocks (b : UInt8) (parens braces : ℕ) : ℕ × ℕ :=
  if b = ascii '(' then (parens + 1, braces)
  else if b = ascii ')' then (parens - 1, braces)
  else if b = ascii '\x7b' then (parens, braces + 1)
  else if b = ascii '\x7d' then (parens, braces - 1)
  else (parens, braces)

/-- The text before the first semicolon outside of parentheses and braces. -/
def beforeSemicolon (parens braces : ℕ) : Text → Text
  | [] => []
  | b :: s =>
    if b = ascii ';' ∧ parens = 0 ∧ braces = 0 then []
    else b :: beforeSemicolon (countBlocks b parens braces).1 (countBlocks b parens braces).2 s

/-- The search for a semicolon, one byte at a time. -/
lemma semicolonFrom_eq (parens braces : ℕ) (b : UInt8) (s : Text) :
    semicolonFrom parens braces (b :: s) =
      if b = ascii ';' ∧ parens = 0 ∧ braces = 0 then some 0
      else (semicolonFrom (countBlocks b parens braces).1 (countBlocks b parens braces).2 s).map
        (· + 1) := by
  unfold countBlocks
  rw [semicolonFrom]
  split
  · next h => rw [if_neg fun hs => absurd (h ▸ hs.1) (by decide)]
  · split
    · next h => rw [if_neg fun hs => absurd (h ▸ hs.1) (by decide)]
    · split
      · next h => rw [if_neg fun hs => absurd (h ▸ hs.1) (by decide)]
      · split
        · next h => rw [if_neg fun hs => absurd (h ▸ hs.1) (by decide)]
        · rfl

lemma take_semicolonFrom (parens braces : ℕ) (s : Text) :
    (semicolonFrom parens braces s).elim s s.take = beforeSemicolon parens braces s := by
  induction s generalizing parens braces with
  | nil => rfl
  | cons b s ih =>
    rw [semicolonFrom_eq, beforeSemicolon]
    split
    · rfl
    · rw [← ih]
      cases semicolonFrom (countBlocks b parens braces).1 (countBlocks b parens braces).2 s <;> rfl

lemma beforeSemicolon_inert {c : Text} (hc : c.all isInert) (parens braces : ℕ) (t : Text) :
    beforeSemicolon parens braces (c ++ t) = c ++ beforeSemicolon parens braces t := by
  induction c with
  | nil => rfl
  | cons b c ih =>
    simp only [List.all_cons, Bool.and_eq_true] at hc
    have hmem : b ∉ [ascii ';', ascii '(', ascii ')', ascii '\x7b', ascii '\x7d'] :=
      notMem_of_class (by decide) hc.1
    simp only [List.mem_cons, not_or] at hmem
    obtain ⟨hsemi, ho, hcl, hob, hcb, -⟩ := hmem
    rw [List.cons_append, beforeSemicolon, if_neg fun h => hsemi h.1]
    simp [countBlocks, ho, hcl, hob, hcb, ih hc.2]

namespace Elides

variable {ok : Text → Bool} {s t r u : Text}

lemma beforeSemicolon (h : Elides ok .kept s r) (parens braces : ℕ) :
    Elides ok .kept (Source.beforeSemicolon parens braces s)
      (Source.beforeSemicolon parens braces r) := by
  have hquote : ∀ (parens braces : ℕ) (t : Text), Source.beforeSemicolon parens braces
      (ascii '"' :: t) = ascii '"' :: Source.beforeSemicolon parens braces t := by
    intro parens braces t
    rw [Source.beforeSemicolon, if_neg fun h => absurd h.1 (by decide)]
    rfl
  generalize hm : Spacing.kept = m at h
  induction h generalizing parens braces with
  | nil => exact .nil
  | @byte m b s r _ ih =>
    subst hm
    rw [Source.beforeSemicolon, Source.beforeSemicolon]
    split
    · exact .nil
    · exact .byte b (ih _ _ rfl)
  | string hc hok _ ih =>
    subst hm
    rw [hquote, beforeSemicolon_inert hc, hquote, hquote, hquote]
    exact .string hc hok (ih _ _ rfl)
  | blanks => simp at hm

/-! ### Blanking blocks -/

lemma blankFrom_inert {c : Text} (hc : c.all isInert) {p : Place} (hq : p.quoting.isProper)
    (hs : p.quoting.isSettled) (t : Text) :
    blankFrom p (c ++ t) =
      (if p.depth = 0 then c else List.replicate c.length (ascii ' ')) ++ blankFrom p t := by
  have hi : Ignores .braces fun _ => false := .of_marks [] (by simp) (by decide) rfl
  induction c with
  | nil => simp
  | cons b c ih =>
    simp only [List.all_cons, Bool.and_eq_true] at hc
    have hstep := Place.step_inert hi hq hs hc.1
    rw [List.cons_append, blankFrom, hstep, ih hc.2]
    by_cases hd : p.depth = 0
    · simp [hd, blanked_outside hd]
    · have hpos := Nat.pos_of_ne_zero hd
      rw [blanked_inside hpos (by rw [hstep]; exact hpos), if_neg (ne_of_class hc.1 (by decide))]
      simp [hd, List.replicate_succ]

/-- The spacing of a blanked text from a place on. -/
def spacingAt (p : Place) : Spacing := if p.depth = 0 then .outside else .inside

lemma most_spacingAt (p : Place) : (spacingAt p).most = .inside := by
  unfold spacingAt
  split <;> rfl

/-- Blanking blocks keeps strings outside of them, and writes those inside of them as runs of
spaces. -/
theorem blankFrom (h : Elides ok .kept s r) {p : Place} (hp : p.quoting.isProper) :
    Elides ok (spacingAt p) (Source.blankFrom p s) (Source.blankFrom p r) := by
  generalize hm : Spacing.kept = m at h
  induction h generalizing p with
  | nil => exact .nil
  | @byte m b s r _ ih =>
    subst hm
    have hrest := ih (p := p.step .braces b) (Quoting.isProper_step hp b) rfl
    rw [Source.blankFrom, Source.blankFrom]
    refine .byte _ ?_
    by_cases hd : p.depth = 0
    · rw [blanked_outside hd, spacingAt, if_pos hd]
      by_cases hb : b = ascii '\x7b'
      · have hmost := hrest.most
        rw [most_spacingAt] at hmost
        simpa [Spacing.next, hb] using hmost
      · have hstep : (p.step .braces b).depth = 0 := by
          obtain ⟨q, d⟩ := p
          obtain rfl : d = 0 := hd
          cases q <;> simp [Place.step, Brackets.braces, hb]
        rw [spacingAt, if_pos hstep] at hrest
        simpa [Spacing.next, hb] using hrest
    · have hpos := Nat.pos_of_ne_zero hd
      rw [spacingAt, if_neg hd]
      by_cases hstep : (p.step .braces b).depth = 0
      · -- the block is closed
        rw [spacingAt, if_pos hstep] at hrest
        have hbase : (Spacing.inside.next (blanked p b)).base = .outside := Spacing.base_next _ _
        exact Elides.of_base (hbase ▸ hrest)
      · rw [spacingAt, if_neg hstep] at hrest
        rw [blanked_inside hpos (Nat.pos_of_ne_zero hstep)]
        by_cases hb : b = ascii '\n'
        · simpa [hb, Spacing.next] using hrest
        · simpa [hb, Spacing.next] using hrest
  | @string m c s r hc hok _ ih =>
    subst hm
    have hproper := Quoting.isProper_step hp (ascii '"')
    have hsettled := p.quoting.isSettled_step (b := ascii '"') (by decide)
    have hdepth : ∀ p : Place, (p.step .braces (ascii '"')).depth = p.depth := by
      intro p
      have hquote : isQuote (ascii '"') := by decide
      obtain ⟨q, d⟩ := p
      cases q <;> simp [Place.step, hquote]
    have hrest := ih (p := p.behindString .braces) (Quoting.isProper_step hproper _) rfl
    have hspacing : spacingAt (p.behindString .braces) = spacingAt p := by
      simp [spacingAt, Place.behindString, hdepth]
    rw [hspacing] at hrest
    have htext : ∀ c t : Text, c.all isInert →
        Source.blankFrom p (ascii '"' :: (c ++ ascii '"' :: t)) =
          (if p.depth = 0 then ascii '"' :: (c ++ [ascii '"'])
            else ascii ' ' :: (List.replicate c.length (ascii ' ') ++ [ascii ' '])) ++
          Source.blankFrom (p.behindString .braces) t := by
      intro c t hc
      rw [Source.blankFrom, blankFrom_inert hc hproper hsettled, Source.blankFrom, hdepth]
      by_cases hd : p.depth = 0
      · simp [hd, blanked_outside hd, blanked_outside ((hdepth p).trans hd), Place.behindString]
      · have hpos := Nat.pos_of_ne_zero hd
        rw [blanked_inside hpos (by rwa [hdepth]),
          blanked_inside (by rwa [hdepth]) (by rwa [hdepth, hdepth]), if_neg (by decide)]
        simp [hd, Place.behindString]
    rw [htext c s hc, show ascii '"' :: ascii '"' :: r = ascii '"' :: ([] ++ ascii '"' :: r) from rfl,
      htext [] r rfl]
    by_cases hd : p.depth = 0
    · simp only [spacingAt, hd, if_true] at hrest ⊢
      have hstring : Elides ok .outside _ _ := Elides.string hc hok hrest
      simpa using hstring
    · simp only [spacingAt, hd, if_false] at hrest ⊢
      have hrun := Elides.blanks c.length (Elides.byte (ascii ' ') hrest)
      simpa [List.replicate_succ] using hrun
  | blanks => simp at hm

lemma blankNested (h : Elides ok .kept s r) :
    Elides ok .outside (Source.blankNested s) (Source.blankNested r) :=
  h.blankFrom (p := {}) rfl

end Elides

end DtoSchema.Source
