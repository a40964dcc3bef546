import Mathlib
import DtoSchema.Proofs.Text.Trimming
import DtoSchema.Source.Nesting

/-!
# White space of any kind

White space is found by the encodings of its characters, none of which starts another one.  So the
encoding that a text starts with is unique, trimming drops encodings as a whole, and what is left
starts with none of them (`not_prefix_dropLeading`).

Collapsing a text trims it and writes every run of white space as one space.  `collapsedTail` is what
is written for a text that goes on behind other bytes: bytes that start no white space stay, and the
first white space is followed by the pieces of the rest.  So a text without leading white space
starts with the visible bytes that its collapsed form starts with (`exists_of_collapsedTail`), and
what comes next is the same whether gaps are skipped in the collapsed form or white space in the text
(`head?_trimStart_of_collapsedTail`).
-/

namespace DtoSchema.Text

open Source

/-! ### Encodings -/

section Encodings

variable {encodings : List Text}

/-- None of the encodings is empty or starts with another one. -/
def isCode (encodings : List Text) : Bool :=
  encodings.all fun e => !e.isEmpty && encodings.all fun e' => !e'.isPrefixOf e || e' == e

lemma isCode_spaces : isCode spaces := by decide

lemma isCode_reversed : isCode (spaces.map List.reverse) := by decide

/-- The encoding that a text starts with is found. -/
lemma leadingWidth_append (hcode : isCode encodings) {e : Text} (he : e ∈ encodings) (t : Text) :
    leadingWidth encodings (e ++ t) = e.length := by
  have hsome : (encodings.find? (·.isPrefixOf (e ++ t))).isSome := by
    rw [List.find?_isSome]
    exact ⟨e, he, by simp⟩
  obtain ⟨e', hfind⟩ := Option.isSome_iff_exists.mp hsome
  have hmem := List.mem_of_find?_eq_some hfind
  have hprefix := List.find?_some hfind
  rw [List.isPrefixOf_iff_prefix] at hprefix
  have huniq : ∀ e₁ ∈ encodings, ∀ e₂ ∈ encodings, e₁ <+: e₂ → e₁ = e₂ := by
    intro e₁ h₁ e₂ h₂ h
    simp only [isCode, List.all_eq_true, Bool.and_eq_true, Bool.or_eq_true] at hcode
    simpa [List.isPrefixOf_iff_prefix.mpr h] using (hcode e₂ h₂).2 e₁ h₁
  obtain rfl : e' = e := by
    rcases List.prefix_or_prefix_of_prefix hprefix (List.prefix_append e t) with h | h
    · exact huniq e' hmem e he h
    · exact (huniq e he e' hmem h).symm
  simp [leadingWidth, hfind]

/-- A text starts with none of the encodings or with one that is found. -/
lemma leadingWidth_cases (hcode : isCode encodings) (s : Text) :
    (leadingWidth encodings s = 0 ∧ ∀ e ∈ encodings, ¬ e <+: s) ∨
      ∃ e ∈ encodings, ∃ t, e ≠ [] ∧ s = e ++ t := by
  cases hfind : encodings.find? (·.isPrefixOf s) with
  | none =>
    refine Or.inl ⟨by simp [leadingWidth, hfind], fun e he hprefix => ?_⟩
    exact absurd (List.isPrefixOf_iff_prefix.mpr hprefix) (List.find?_eq_none.mp hfind e he)
  | some e =>
    have hmem := List.mem_of_find?_eq_some hfind
    have hprefix := List.find?_some hfind
    obtain ⟨t, rfl⟩ := List.isPrefixOf_iff_prefix.mp hprefix
    refine Or.inr ⟨e, hmem, t, ?_, rfl⟩
    simp only [isCode, List.all_eq_true, Bool.and_eq_true, Bool.not_eq_true',
      List.isEmpty_eq_false_iff] at hcode
    exact (hcode e hmem).1

lemma dropLeading_stay {s : Text} (h : leadingWidth encodings s = 0) :
    dropLeading encodings s = s := by
  cases s with
  | nil => rfl
  | cons b s => rw [dropLeading, dropLeadingFrom, h]

/-- An encoding in front is dropped as a whole. -/
lemma dropLeading_append (hcode : isCode encodings) {e : Text} (he : e ∈ encodings) (hne : e ≠ [])
    (t : Text) : dropLeading encodings (e ++ t) = dropLeading encodings t := by
  have hpass : ∀ a : Text,
      dropLeadingFrom encodings a.length (a ++ t) = dropLeadingFrom encodings 0 t := by
    intro a
    induction a with
    | nil => rfl
    | cons b a ih => simpa [dropLeadingFrom] using ih
  have hwidth := leadingWidth_append hcode he t
  cases e with
  | nil => exact absurd rfl hne
  | cons b e =>
    rw [List.cons_append, List.length_cons] at hwidth
    rw [dropLeading, List.cons_append, dropLeadingFrom, hwidth]
    exact hpass e

lemma dropLeading_isSuffix (encodings : List Text) (s : Text) : dropLeading encodings s <:+ s := by
  have hfrom : ∀ (s : Text) (k : ℕ), dropLeadingFrom encodings k s <:+ s := by
    intro s
    induction s with
    | nil =>
      intro k
      cases k <;> exact List.suffix_refl _
    | cons b s ih =>
      intro k
      cases k with
      | succ k => exact (ih k).trans (List.suffix_cons b s)
      | zero =>
        rw [dropLeadingFrom]
        split
        · exact List.suffix_refl _
        · exact (ih _).trans (List.suffix_cons b s)
  exact hfrom s 0

lemma trimEnd_isPrefix (s : Text) : trimEnd s <+: s := by
  have hsuffix := dropLeading_isSuffix (spaces.map List.reverse) s.reverse
  rwa [← List.reverse_prefix, List.reverse_reverse] at hsuffix

lemma trim_sublist (s : Text) : (trim s).Sublist s :=
  (trimEnd_isPrefix _).sublist.trans (dropLeading_isSuffix spaces s).sublist

/-- What is left starts with none of the encodings. -/
lemma not_prefix_dropLeading (hcode : isCode encodings) (s : Text) :
    ∀ e ∈ encodings, ¬ e <+: dropLeading encodings s := by
  induction hn : s.length using Nat.strong_induction_on generalizing s with
  | _ n ih =>
    rcases leadingWidth_cases hcode s with ⟨hzero, hnone⟩ | ⟨e, he, t, hne, rfl⟩
    · rwa [dropLeading_stay hzero]
    · rw [dropLeading_append hcode he hne]
      refine ih t.length ?_ t rfl
      have := List.length_pos_iff.mpr hne
      simp only [List.length_append] at hn
      omega

/-- One more byte at the end is dropped only together with all that was left. -/
lemma dropLeading_concat (hcode : isCode encodings) (b : UInt8) (s : Text) :
    dropLeading encodings (s ++ [b]) =
      if dropLeading encodings s ++ [b] ∈ encodings then [] else dropLeading encodings s ++ [b] := by
  induction hn : s.length using Nat.strong_induction_on generalizing s with
  | _ n ih =>
    rcases leadingWidth_cases hcode s with ⟨hzero, hnone⟩ | ⟨e, he, t, hne, rfl⟩
    · rw [dropLeading_stay hzero]
      split
      · next hmem =>
        have h := dropLeading_append hcode hmem (by simp) []
        rw [List.append_nil] at h
        rw [h]
        rfl
      · next hmem =>
        rcases leadingWidth_cases hcode (s ++ [b]) with ⟨h, -⟩ | ⟨e, he, t, -, heq⟩
        · exact dropLeading_stay h
        · -- an encoding in front is one of the text without the byte, or takes all of it
          rcases List.prefix_concat_iff.mp ⟨t, heq.symm⟩ with rfl | h
          · exact absurd he hmem
          · exact absurd h (hnone e he)
    · rw [List.append_assoc, dropLeading_append hcode he hne, dropLeading_append hcode he hne]
      refine ih t.length ?_ t rfl
      have := List.length_pos_iff.mpr hne
      simp only [List.length_append] at hn
      omega

end Encodings

/-- Trimming at the end, one byte at a time. -/
lemma trimEnd_cons (b : UInt8) (s : Text) :
    trimEnd (b :: s) = if b :: trimEnd s ∈ spaces then [] else b :: trimEnd s := by
  have hmem : ∀ t : Text, t.reverse ∈ spaces.map List.reverse ↔ t ∈ spaces := by simp
  have hcons : dropLeading (spaces.map List.reverse) s.reverse ++ [b] = (b :: trimEnd s).reverse := by
    simp [trimEnd]
  rw [trimEnd, List.reverse_cons, dropLeading_concat isCode_reversed, hcons]
  simp only [hmem]
  split <;> simp

lemma mem_spaces_of_isGap {b : UInt8} (hb : isGap b) : [b] ∈ spaces := by
  simp only [isGap, Bool.or_eq_true, beq_iff_eq] at hb
  rcases hb with (((rfl | rfl) | rfl) | rfl) | rfl <;> decide

/-- A text that is trimmed at its start does not start with a gap. -/
lemma head?_trimStart (s : Text) : (trimStart s).head?.any isGap = false := by
  have hnone := not_prefix_dropLeading isCode_spaces s
  cases hs : trimStart s with
  | nil => rfl
  | cons b t =>
    rw [trimStart] at hs
    rw [hs] at hnone
    by_contra h
    exact hnone [b] (mem_spaces_of_isGap (by simpa using h)) ⟨t, rfl⟩

/-- A text is white space followed by what trimming leaves of it. -/
lemma exists_append_trimStart (s : Text) : ∃ w, s = w ++ trimStart s ∧ trimStart w = [] := by
  induction hn : s.length using Nat.strong_induction_on generalizing s with
  | _ n ih =>
    rcases leadingWidth_cases isCode_spaces s with ⟨hzero, -⟩ | ⟨e, he, t, hne, rfl⟩
    · exact ⟨[], by rw [trimStart, dropLeading_stay hzero]; rfl, rfl⟩
    · have hlength : t.length < n := by
        have := List.length_pos_iff.mpr hne
        simp only [List.length_append] at hn
        omega
      obtain ⟨w, hw, hblank⟩ := ih t.length hlength t rfl
      have hpass : ∀ u : Text, trimStart (e ++ u) = trimStart u :=
        dropLeading_append isCode_spaces he hne
      exact ⟨e ++ w, by rw [hpass, List.append_assoc, ← hw], by rw [hpass, hblank]⟩

/-- What is left of a trimmed text starts with no white space. -/
lemma leadingWidth_trim (s : Text) : leadingWidth spaces (trim s) = 0 := by
  rcases leadingWidth_cases isCode_spaces (trim s) with ⟨hzero, -⟩ | ⟨e, he, t, -, heq⟩
  · exact hzero
  · have hprefix : e <+: trimStart s := List.IsPrefix.trans ⟨t, heq.symm⟩ (trimEnd_isPrefix _)
    exact absurd hprefix (not_prefix_dropLeading isCode_spaces s e he)

/-! ### Collapsing -/

/-- What collapsing writes for a text that goes on behind other bytes. -/
def collapsedTail (s : Text) : Text :=
  match spacePieces 0 s with
  | [] => []
  | p :: ps => p ++ (ps.filter (!·.isEmpty)).flatMap (ascii ' ' :: ·)

@[simp] lemma collapsedTail_nil : collapsedTail [] = [] := rfl

/-- The text falls into pieces, of which there is at least one. -/
lemma spacePieces_ne_nil (k : ℕ) (s : Text) : spacePieces k s ≠ [] := by
  induction s generalizing k with
  | nil => simp [spacePieces]
  | cons b s ih =>
    cases k with
    | succ k => exact ih k
    | zero =>
      rw [spacePieces]
      split
      · split <;> simp
      · simp

/-- A byte that starts no white space stays. -/
lemma collapsedTail_cons {b : UInt8} {s : Text} (h : leadingWidth spaces (b :: s) = 0) :
    collapsedTail (b :: s) = b :: collapsedTail s := by
  obtain ⟨p, ps, hpieces⟩ := List.exists_cons_of_ne_nil (spacePieces_ne_nil 0 s)
  simp [collapsedTail, spacePieces, h, hpieces]

/-- White space is followed by the pieces of the rest, with a space before each of them. -/
lemma collapsedTail_space {b : UInt8} {s : Text} {w : ℕ}
    (h : leadingWidth spaces (b :: s) = w + 1) :
    collapsedTail (b :: s) =
      ((spacePieces w s).filter (!·.isEmpty)).flatMap (ascii ' ' :: ·) := by
  simp [collapsedTail, spacePieces, h]

/-- A text without leading white space is collapsed as one that goes on. -/
lemma collapse_eq_collapsedTail {s : Text} (h : leadingWidth spaces s = 0) :
    collapse s = collapsedTail s := by
  have hjoin : ∀ (p : Text) (ps : List Text),
      join " " (p :: ps) = p ++ ps.flatMap (ascii ' ' :: ·) := by
    intro p ps
    induction ps generalizing p with
    | nil => simp [join]
    | cons q qs ih =>
      rw [join_cons_cons, ih q, List.flatMap_cons, List.append_assoc]
      rfl
  cases s with
  | nil => rfl
  | cons b s =>
    obtain ⟨p, ps, hpieces⟩ := List.exists_cons_of_ne_nil (spacePieces_ne_nil 0 s)
    simp [collapse, fields, collapsedTail, spacePieces, h, hpieces, hjoin]

/-- The visible bytes that the collapsed form starts with start the text. -/
lemma exists_of_collapsedTail {q s u : Text} (hq : q.all isInk) (h : collapsedTail s = q ++ u) :
    ∃ t, s = q ++ t ∧ collapsedTail t = u := by
  induction q generalizing s with
  | nil => exact ⟨s, rfl, h⟩
  | cons c q ih =>
    simp only [List.all_cons, Bool.and_eq_true] at hq
    cases s with
    | nil => simp at h
    | cons b s =>
      cases hwidth : leadingWidth spaces (b :: s) with
      | zero =>
        rw [collapsedTail_cons hwidth, List.cons_append, List.cons.injEq] at h
        obtain ⟨rfl, h⟩ := h
        obtain ⟨t, rfl, ht⟩ := ih hq.2 h
        exact ⟨t, rfl, ht⟩
      | succ w =>
        -- a space would come first, which is not visible
        rw [collapsedTail_space hwidth] at h
        cases hpieces : (spacePieces w s).filter (!·.isEmpty) with
        | nil => simp [hpieces] at h
        | cons p ps =>
          rw [hpieces, List.flatMap_cons, List.cons_append, List.cons_append, List.cons.injEq] at h
          rw [← h.1] at hq
          exact absurd hq.1 (by decide)

/-- The first piece of a text starts with the byte that is first behind white space. -/
lemma head?_of_spacePieces {k : ℕ} {s p : Text} {ps : List Text}
    (h : (spacePieces k s).filter (!·.isEmpty) = p :: ps) :
    p ≠ [] ∧ p.head? = (dropLeadingFrom spaces k s).head? := by
  induction s generalizing k with
  | nil => simp [spacePieces] at h
  | cons b s ih =>
    cases k with
    | succ k => exact ih h
    | zero =>
      rw [dropLeadingFrom]
      rw [spacePieces] at h
      cases hwidth : leadingWidth spaces (b :: s) with
      | zero =>
        obtain ⟨q, qs, hpieces⟩ := List.exists_cons_of_ne_nil (spacePieces_ne_nil 0 s)
        simp only [hwidth, hpieces, List.filter_cons, List.isEmpty_cons, Bool.not_false, if_true,
          List.cons.injEq] at h
        simp [← h.1]
      | succ w =>
        simp only [hwidth, List.filter_cons, List.isEmpty_nil, Bool.not_true, Bool.false_eq_true,
          if_false] at h
        exact ih h

/-- The byte that comes behind gaps in the collapsed form comes behind white space in the text. -/
lemma head?_trimStart_of_collapsedTail {s : Text} {b : UInt8}
    (h : (skipGaps (collapsedTail s)).head? = some b) : (trimStart s).head? = some b := by
  have hgap : ∀ t : Text, t.head?.any isGap = false → skipGaps t = t := by
    intro t ht
    cases t with
    | nil => rfl
    | cons c t => simp_all [skipGaps]
  have hhead := head?_trimStart s
  cases s with
  | nil => simp [skipGaps] at h
  | cons c s =>
    cases hwidth : leadingWidth spaces (c :: s) with
    | zero =>
      rw [trimStart, dropLeading_stay hwidth] at hhead ⊢
      rw [collapsedTail_cons hwidth, hgap _ (by simpa using hhead)] at h
      exact h
    | succ w =>
      rw [collapsedTail_space hwidth] at h
      cases hpieces : (spacePieces w s).filter (!·.isEmpty) with
      | nil => simp [hpieces, skipGaps] at h
      | cons p ps =>
        obtain ⟨hne, hfirst⟩ := head?_of_spacePieces hpieces
        have hdrop : trimStart (c :: s) = dropLeadingFrom spaces w s := by
          rw [trimStart, dropLeading, dropLeadingFrom, hwidth]
        obtain ⟨d, p, rfl⟩ := List.exists_cons_of_ne_nil hne
        rw [hdrop, ← hfirst] at hhead ⊢
        have hskip : skipGaps (ascii ' ' :: (d :: p ++ ps.flatMap (ascii ' ' :: ·))) =
            skipGaps (d :: p ++ ps.flatMap (ascii ' ' :: ·)) := rfl
        rw [hpieces, List.flatMap_cons, List.cons_append, hskip, hgap _ (by simpa using hhead)] at h
        exact h

end DtoSchema.Text
