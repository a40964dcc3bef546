import DtoSchema.Proofs.Declaration.ElidedMarks
import DtoSchema.Proofs.Declaration.Header

/-!
# Headers in texts with emptied strings

The search for headers takes no notice of strings, and neither does the search for the body behind a
header.  So what a string holds matters if it looks like a declaration.  A content is prose if none
of its words is one of those that start a declaration; then no header is found in it, and the search
for a body passes over it.

The headers of a text and of its elision stand at corresponding places and have the same names
(`occurrences_elides`), their bodies correspond to each other (`body?_elides`), and the enumerations
are the same (`enums_elides`).
-/

namespace DtoSchema.Declaration

open Text Source

/-! ### Prose -/

/-- The words that mean something wherever they stand. -/
def notableWords : List Text := utf8 "by" :: declarationWords

/-- `isProse` from inside a text: the number counts the bytes of the last word that are still to be
passed. -/
def proseFrom : ℕ → Text → Bool
  | _, [] => true
  | k + 1, _ :: s => proseFrom k s
  | 0, b :: s =>
    let word := identAt (b :: s)
    word ∉ notableWords && proseFrom (word.length - 1) s

/-- No word of the text starts a declaration or a delegate. -/
def isProse (s : Text) : Bool := proseFrom 0 s

/-- Prose as a sequence of signs and words. -/
inductive IsProse : Text → Prop
  | nil : IsProse []
  | sign {b : UInt8} {s : Text} : isIdentStart b = false → IsProse s → IsProse (b :: s)
  | word {w s : Text} : isIdent w → w ∉ notableWords → s.head?.any isIdentPart = false → IsProse s →
      IsProse (w ++ s)

lemma proseFrom_pass (a t : Text) : proseFrom a.length (a ++ t) = isProse t := by
  induction a with
  | nil => rfl
  | cons b a ih => simpa [proseFrom] using ih

/-- The identifier at the start of a text, if there is one, and what follows it. -/
lemma identAt_cases (s : Text) :
    (identAt s = [] ∧ s.head?.any isIdentStart = false) ∨
      ∃ w t, s = w ++ t ∧ isIdent w ∧ identAt s = w ∧ t.head?.any isIdentPart = false := by
  cases s with
  | nil => exact Or.inl ⟨rfl, rfl⟩
  | cons b s =>
    by_cases hb : isIdentStart b
    · refine Or.inr ⟨b :: s.takeWhile isIdentPart, s.dropWhile isIdentPart, by simp, ?_, ?_, ?_⟩
      · simp [isIdent, hb]
      · simp [identAt, hb]
      · cases hs : s.dropWhile isIdentPart with
        | nil => rfl
        | cons c t =>
          have hc := List.head_dropWhile_not isIdentPart (l := s) (by simp [hs])
          simpa [hs] using hc
    · exact Or.inl ⟨by simp [identAt, hb], by simpa using hb⟩

lemma IsProse.of_isProse {s : Text} (h : isProse s) : IsProse s := by
  induction hn : s.length using Nat.strong_induction_on generalizing s with
  | _ n ih =>
    rcases identAt_cases s with ⟨hword, hhead⟩ | ⟨w, t, rfl, hw, hword, ht⟩
    · cases s with
      | nil => exact .nil
      | cons b s =>
        rw [isProse, proseFrom, hword, Bool.and_eq_true] at h
        simp only [List.length_cons] at hn
        exact .sign (by simpa using hhead) (ih s.length (by omega) h.2 rfl)
    · cases w with
      | nil => simp [isIdent] at hw
      | cons b w =>
        rw [List.cons_append] at hword
        rw [isProse, List.cons_append, proseFrom, hword, Bool.and_eq_true, List.length_cons,
          Nat.add_sub_cancel, proseFrom_pass] at h
        simp only [List.length_append, List.length_cons] at hn
        exact .word hw (by simpa using h.1) ht (ih t.length (by omega) h.2 rfl)

lemma all_isWord_of_isInert {w : Text} (hw : isIdent w) (hinert : w.all isInert) :
    w.all isWord := by
  have hpart := all_isIdentPart_of_isIdent hw
  rw [List.all_eq_true] at hinert hpart ⊢
  intro b hb
  -- the dollar sign is the only byte of identifiers that is no word byte
  have hne : b ≠ ascii '$' := ne_of_class (hinert b hb) (by decide)
  have hbyte := hpart b hb
  simp only [isIdentPart, isIdentStart, isWord, Bool.or_eq_true, beq_iff_eq, hne] at hbyte ⊢
  tauto

/-- No header starts in prose. -/
lemma skips_of_isProse {k : Text} (hk : isKeyword k) (hident : isIdent k) (hmem : k ∈ notableWords)
    {c : Text} (hc : IsProse c) (hinert : c.all isInert) (prev : Option UInt8) {t : Text}
    (ht : t.head?.any isWord = false) : Skips k prev c t := by
  induction hc generalizing prev with
  | nil => trivial
  | @sign b s hb _ ih =>
    simp only [List.all_cons, Bool.and_eq_true] at hinert
    refine ⟨?_, ih hinert.2 _⟩
    by_contra hat
    obtain ⟨-, r, hr, -⟩ := keywordAt_iff.mp (Bool.eq_true_of_not_eq_false hat)
    have hhead := head?_append_any (head?_isIdentStart_of_isIdent hident) r
    rw [← hr] at hhead
    simp [hb] at hhead
  | @word w s hw hne hs _ ih =>
    rw [List.all_append, Bool.and_eq_true] at hinert
    have hword := all_isWord_of_isInert hw hinert.1
    have hhead : (s ++ t).head?.any isWord = false := by
      cases s with
      | nil => exact ht
      | cons b s =>
        exact Bool.eq_false_iff.mpr fun hb => by simp [isIdentPart_of_isWord hb] at hs
    refine skips_append.mpr ⟨?_, ih hinert.2 _⟩
    cases hprev : prev.any isWord with
    | false =>
      refine Free.of_word hk hword (fun h => hne (h ▸ hmem)) prev (s ++ t) ?_ ?_
      · simp [apart, hprev]
      · simp only [apart, hhead, Bool.and_false, Bool.not_false]
    | true =>
      cases prev with
      | none => simp at hprev
      | some b => exact skips_inside (by simpa using hprev) hword

/-- No header starts in a string that holds prose. -/
lemma skips_string {k : Text} (hk : isKeyword k) (hident : isIdent k) (hmem : k ∈ notableWords)
    {c : Text} (hc : isProse c) (hinert : c.all isInert) (prev : Option UInt8) (t : Text) :
    Skips k prev (ascii '"' :: (c ++ [ascii '"'])) t := by
  have hquote : isWord (ascii '"') = false := by decide
  have hhead : (ascii '"' :: t).head?.any isWord = false := hquote
  exact ⟨keywordAt_outside hk hquote prev _, skips_append.mpr
    ⟨skips_of_isProse hk hident hmem (.of_isProse hc) hinert _ hhead,
      keywordAt_outside hk hquote _ _, trivial⟩⟩

/-! ### The body behind a header -/

/-- Prose can stand between a header and its body. -/
lemma IsProse.isClause {c : Text} (h : IsProse c) (hinert : c.all isInert) : IsClause c := by
  induction h with
  | nil => exact .nil
  | sign hb _ ih =>
    simp only [List.all_cons, Bool.and_eq_true] at hinert
    exact .sign hb (notMem_of_class (by decide) hinert.1) (ih hinert.2)
  | word hw hmem hs _ ih =>
    rw [List.all_append, Bool.and_eq_true] at hinert
    exact .word hw (fun h => hmem (List.mem_cons_of_mem _ h)) hs (ih hinert.2)

lemma bodyStart?_string {c : Text} (hc : isProse c) (hinert : c.all isInert) (t : Text) :
    bodyStart? (ascii '"' :: (c ++ ascii '"' :: t)) = bodyStart? t := by
  have hquote : ∀ t : Text, bodyStart? (ascii '"' :: t) = bodyStart? t := fun t =>
    bodyStart?_sign (by decide) (by decide) t
  have hclause := (IsProse.of_isProse hc).isClause hinert
  rw [hquote, bodyStart?_append hclause (by simp; decide), hquote]

variable {s r : Text}

/-- The search for a body ends at corresponding places of a text and its elision. -/
theorem bodyStart?_elides (h : Elides isProse .kept s r) :
    Option.Rel (Elides isProse .kept) (bodyStart? s) (bodyStart? r) := by
  induction hn : s.length using Nat.strong_induction_on generalizing s r with
  | _ n ih =>
    cases h with
    | nil => exact .none
    | @byte _ b s r h =>
      rw [Spacing.next_kept] at h
      simp only [List.length_cons] at hn
      have hbyte : Elides isProse .kept (b :: s) (b :: r) := .byte b h
      by_cases hbrace : b = ascii '\x7b'
      · subst hbrace
        exact .some hbyte
      have hgroup : ∀ {o c : UInt8}, (o, c) ∈ [(ascii '(', ascii ')'), (ascii '<', ascii '>')] →
          b = o → Option.Rel (Elides isProse .kept) (bodyStart? (b :: s)) (bodyStart? (b :: r)) := by
        intro o c hp hb
        have hcut : Option.Rel (Elides.Cut isProse .kept) (readBalanced? o c (b :: s))
            (readBalanced? o c (b :: r)) := by
          simp only [List.mem_cons, Prod.mk.injEq, List.not_mem_nil, or_false] at hp
          rcases hp with ⟨rfl, rfl⟩ | ⟨rfl, rfl⟩
          · exact hbyte.parens
          · exact hbyte.angles
        subst hb
        rw [bodyStart?_group hp, bodyStart?_group hp]
        rcases rel_cases hcut with ⟨hs, hr⟩ | ⟨⟨content, s'⟩, ⟨content', r'⟩, hs, hr, hcut⟩
        · rw [hs, hr]
          exact .none
        · rw [hs, hr]
          have hlength := congrArg List.length (eq_of_readBalanced? hs)
          simp only [List.length_cons, List.length_append] at hlength
          exact ih s'.length (by omega) hcut.rest rfl
      by_cases hopen : b = ascii '('
      · exact hgroup List.mem_cons_self hopen
      by_cases hangle : b = ascii '<'
      · exact hgroup (List.mem_cons_of_mem _ List.mem_cons_self) hangle
      by_cases hstop : b = ascii ';' ∨ b = ascii '\x7d' ∨ b = ascii '=' ∨ b = ascii ')'
      · have hnone : ∀ t : Text, bodyStart? (b :: t) = none := by
          intro t
          rw [bodyStart?, bodyStartFrom?, if_neg hbrace, if_neg hopen, if_neg hangle, if_pos hstop]
        rw [hnone, hnone]
        exact .none
      have hident := hbyte.identAt_eq
      by_cases hword : identAt (b :: s) ∈ declarationWords
      · have hnone : ∀ t : Text, identAt (b :: t) ∈ declarationWords → bodyStart? (b :: t) = none := by
          intro t ht
          rw [bodyStart?, bodyStartFrom?, if_neg hbrace, if_neg hopen, if_neg hangle, if_neg hstop]
          simp only [if_pos ht]
        rw [hnone s hword, hnone r (hident ▸ hword)]
        exact .none
      rcases identAt_cases (b :: s) with ⟨-, hhead⟩ | ⟨w, t, hw, hident', hat, ht⟩
      · have hmem : b ∉ utf8 "\x7b(<;\x7d=)" := by
          rw [mem_headerSigns]
          tauto
        have hstart : isIdentStart b = false := by simpa using hhead
        rw [bodyStart?_sign hstart hmem, bodyStart?_sign hstart hmem]
        exact ih s.length (by omega) h rfl
      · rw [hat] at hword
        have hlength := congrArg List.length hw
        have hpos := List.length_pos_iff.mpr (ne_nil_of_isIdent hident')
        rw [hw] at hbyte ⊢
        obtain ⟨r', hr, h'⟩ :=
          hbyte.of_append (isSteady_of_isIdentPart (all_isIdentPart_of_isIdent hident'))
        rw [Spacing.foldl_kept] at h'
        rw [hr, bodyStart?_word hident' hword ht, bodyStart?_word hident' hword (h'.head?_eq ▸ ht)]
        simp only [List.length_append, List.length_cons] at hlength
        exact ih t.length (by omega) h' rfl
    | @string _ c s r hc hok h =>
      simp only [List.length_cons, List.length_append] at hn
      have hempty := bodyStart?_string (c := []) rfl rfl r
      rw [List.nil_append] at hempty
      rw [bodyStart?_string hok hc, hempty]
      exact ih s.length (by omega) h rfl

theorem body?_elides (h : Elides isProse .kept s r) :
    Option.Rel (Elides isProse .kept) (body? s) (body? r) :=
  rel_bind (bodyStart?_elides h) fun _ _ h => rel_map h.braces fun _ _ hcut => hcut.first

/-! ### Patterns -/

section Patterns

variable {ok : Text → Bool} {α : Type}

/-- The texts `s` and `r` start with the same text, behind which come `s'` and its elision `r'`. -/
def Shared (ok : Text → Bool) (s r s' r' : Text) : Prop :=
  ∃ a, s = a ++ s' ∧ r = a ++ r' ∧ Elides ok .kept s' r'

lemma Shared.elides {s r s' r' : Text} (h : Shared ok s r s' r') : Elides ok .kept s' r' := by
  obtain ⟨-, -, -, h⟩ := h
  exact h

lemma Shared.trans {s r s' r' s'' r'' : Text} (h : Shared ok s r s' r')
    (h' : Shared ok s' r' s'' r'') : Shared ok s r s'' r'' := by
  obtain ⟨a, rfl, rfl, -⟩ := h
  obtain ⟨b, rfl, rfl, h⟩ := h'
  exact ⟨a ++ b, by simp, by simp, h⟩

lemma Shared.bind {x y : Option Text} {f : Text → Option Text} (h : Option.Rel (Shared ok s r) x y)
    (hf : ∀ {s r : Text}, Elides ok .kept s r → Option.Rel (Shared ok s r) (f s) (f r)) :
    Option.Rel (Shared ok s r) (x.bind f) (y.bind f) := by
  refine rel_bind h fun s' r' hshared => ?_
  have h' : Elides ok .kept s' r' := hshared.elides
  rcases rel_cases (hf h') with ⟨hs, hr⟩ | ⟨s'', r'', hs, hr, hshared'⟩
  · rw [hs, hr]
    exact .none
  · rw [hs, hr]
    exact .some (hshared.trans hshared')

lemma afterPrefix?_shared (h : Elides ok .kept s r) {p : Text} (hp : Elides.isSteady p) :
    Option.Rel (Shared ok s r) (afterPrefix? p s) (afterPrefix? p r) := by
  have hrel := h.afterPrefix? hp
  rw [Spacing.foldl_kept] at hrel
  rcases rel_cases hrel with ⟨hs, hr⟩ | ⟨s', r', hs, hr, h'⟩
  · rw [hs, hr]
    exact .none
  · rw [hs, hr]
    exact .some ⟨p, afterPrefix?_eq_some_iff.mp hs, afterPrefix?_eq_some_iff.mp hr, h'⟩

lemma skipGaps_shared (h : Elides ok .kept s r) : Shared ok s r (skipGaps s) (skipGaps r) := by
  refine ⟨s.takeWhile isGap, List.takeWhile_append_dropWhile.symm, ?_, h.skipGaps⟩
  rw [h.takeWhile_kept (by decide)]
  exact List.takeWhile_append_dropWhile.symm

lemma afterGaps?_shared (h : Elides ok .kept s r) :
    Option.Rel (Shared ok s r) (afterGaps? s) (afterGaps? r) := by
  unfold afterGaps?
  rw [h.head?_eq]
  split
  · exact .some (skipGaps_shared h)
  · exact .none

lemma afterKeywords?_shared {ks : List Text} (hks : ∀ k ∈ ks, Elides.isSteady k)
    (h : Elides ok .kept s r) :
    Option.Rel (Shared ok s r) (afterKeywords? ks s) (afterKeywords? ks r) := by
  induction ks generalizing s r with
  | nil => exact .some ⟨[], rfl, rfl, h⟩
  | cons k ks ih =>
    simp only [List.forall_mem_cons] at hks
    have hfirst := afterPrefix?_shared h hks.1
    cases ks with
    | nil => exact hfirst
    | cons k' ks =>
      exact Shared.bind (Shared.bind hfirst afterGaps?_shared) fun h => ih hks.2 h

/-- Two answers of a pattern agree: the value and the width are the same, and the same text is
covered. -/
def Agrees (ok : Text → Bool) (s r : Text) (x y : α × ℕ) : Prop :=
  x = y ∧ ∃ a s' r', a ≠ [] ∧ x.2 = a.length ∧ s = a ++ s' ∧ r = a ++ r' ∧ Elides ok .kept s' r'

/-- A pattern that ends in a fixed text answers in the same way. -/
lemma Shared.agrees {x y : Text} (h : Shared ok s r x y) {p : Text} (hp : Elides.isSteady p)
    (hne : p ≠ []) (v : α) :
    Option.Rel (fun x' y' => Agrees ok s r (v, s.length - x'.length) (v, r.length - y'.length) ∧
      x'.head? = y'.head?) (afterPrefix? p x) (afterPrefix? p y) := by
  rcases rel_cases (afterPrefix?_shared h.elides hp) with ⟨hx, hy⟩ | ⟨x', y', hx, hy, hshared⟩
  · rw [hx, hy]
    exact .none
  · rw [hx, hy]
    rw [afterPrefix?_eq_some_iff] at hx hy
    obtain ⟨a, rfl, rfl, -⟩ := h
    subst hx hy
    have hrest := hshared.elides
    have hwidth : ∀ t : Text, (a ++ (p ++ t)).length - t.length = (a ++ p).length := by
      intro t
      simp only [List.length_append]
      omega
    refine .some ⟨?_, hrest.head?_eq⟩
    rw [hwidth, hwidth]
    exact ⟨rfl, a ++ p, x', y', by simp [hne], rfl, by simp, by simp, hrest⟩

/-- The pattern answers in the same way for a text and its elision, and only where one of the notable
words stands. -/
structure IsRegular (pattern : Option UInt8 → Text → Option (α × ℕ)) : Prop where
  agrees : ∀ {ok : Text → Bool} (prev : Option UInt8) {s r : Text}, Elides ok .kept s r →
    Option.Rel (Agrees ok s r) (pattern prev s) (pattern prev r)
  keyword : ∃ ks : List Text, (∀ k ∈ ks, isKeyword k ∧ isIdent k ∧ k ∈ notableWords) ∧
    ∀ prev s v, pattern prev s = some v → ∃ k ∈ ks, keywordAt k prev s

/-- The same name stands behind gaps in front of a text and its elision. -/
lemma nameAfterGaps?_elides {start part : UInt8 → Bool} (hstart : start (ascii '"') = false)
    (hpart : part (ascii '"') = false) (h : Elides ok .kept s r) :
    Option.Rel (fun x y => x = y ∧ x ≠ [] ∧ ∃ s' r', skipGaps s = x ++ s' ∧ skipGaps r = x ++ r' ∧
      Elides ok .kept s' r') (nameAfterGaps? start part s) (nameAfterGaps? start part r) := by
  have hskip := h.skipGaps
  by_cases hgap : s.head?.any isGap
  · have hafter : ∀ t : Text, t.head? = s.head? → afterGaps? t = some (skipGaps t) := fun t ht => by
      rw [afterGaps?, ht, if_pos hgap]
    have hhead := hskip.head?_eq
    simp only [nameAfterGaps?, hafter s rfl, hafter r h.head?_eq.symm]
    rcases hs : skipGaps s with _ | ⟨b, u⟩ <;> rcases hr : skipGaps r with _ | ⟨c, v⟩ <;>
      rw [hs, hr] at hhead hskip
    · exact .none
    · simp at hhead
    · simp at hhead
    · obtain rfl : b = c := by simpa using hhead
      by_cases hb : start b
      · obtain ⟨v', hv, h'⟩ := hskip.of_cons (ne_of_class hb hstart) (by simp)
        obtain rfl := (List.cons.inj hv).2
        simp only [hb, if_true]
        refine .some ⟨by rw [h'.takeWhile_kept hpart], by simp, u.dropWhile part, v.dropWhile part,
          by simp, ?_, h'.dropWhile hpart⟩
        rw [h'.takeWhile_kept hpart]
        simp
      · simp only [hb, Bool.false_eq_true, if_false]
        exact .none
  · have hnone : ∀ t : Text, t.head? = s.head? → nameAfterGaps? start part t = none := fun t ht => by
      simp only [nameAfterGaps?, afterGaps?, ht, if_neg hgap]
    rw [hnone s rfl, hnone r h.head?_eq.symm]
    exact .none

lemma isRegular_header? {k : Text} {ks : List Text} (hk : isKeyword k) (hident : isIdent k)
    (hmem : k ∈ notableWords) (hks : ∀ k' ∈ k :: ks, Elides.isSteady k')
    {start part : UInt8 → Bool} (hstart : start (ascii '"') = false)
    (hpart : part (ascii '"') = false) : IsRegular (header? (k :: ks) start part) where
  agrees := by
    intro ok prev s r h
    unfold header? atBoundary
    rw [h.head?_eq]
    split
    · refine rel_bind (afterKeywords?_shared hks h) fun rest rest' hshared => ?_
      refine rel_map (nameAfterGaps?_elides hstart hpart hshared.elides) ?_
      rintro name name' ⟨rfl, hne, s', r', hs, hr, h'⟩
      have hskip := skipGaps_shared hshared.elides
      rw [hs, hr] at hskip ⊢
      obtain ⟨a, rfl, rfl, -⟩ := hshared.trans hskip
      refine ⟨by simp, a ++ name, s', r', by simp [hne], ?_, by simp, by simp, h'⟩
      simp only [List.length_append]
      omega
    · exact .none
  keyword := by
    refine ⟨[k], by simp [hk, hident, hmem], fun prev s v h => ?_⟩
    exact ⟨k, by simp, keywordAt_of_header? hk h⟩

/-! ### Occurrences -/

/-- The places of two occurrences correspond to each other, and the value is the same. -/
structure SamePlace (ok : Text → Bool) (o p : Occurrence α) : Prop where
  value : o.value = p.value
  before : Elides (fun c => ok c.reverse) .kept o.before p.before
  after : Elides ok .kept o.after p.after

theorem occurrencesFrom_elides {pattern : Option UInt8 → Text → Option (α × ℕ)}
    (hpattern : IsRegular pattern) {before before' : Text}
    (hbefore : Elides (fun c => isProse c.reverse) .kept before before')
    (h : Elides isProse .kept s r) :
    List.Forall₂ (SamePlace isProse) (occurrencesFrom pattern before 0 s)
      (occurrencesFrom pattern before' 0 r) := by
  obtain ⟨ks, hks, hkeyword⟩ := hpattern.keyword
  induction hn : s.length using Nat.strong_induction_on generalizing s r before before' with
  | _ n ih =>
    rcases rel_cases (hpattern.agrees before.head? h) with ⟨hs, hr⟩ |
      ⟨⟨v, w⟩, ⟨v', w'⟩, hs, hr, heq, a, s', r', hne, hw, rfl, rfl, h'⟩
    · rw [hbefore.head?_eq] at hr
      cases h with
      | nil => exact .nil
      | @byte _ b s r h =>
        rw [occurrencesFrom, hs, occurrencesFrom, hr]
        simp only [List.length_cons] at hn
        exact ih s.length (by omega) (.byte b hbefore) h rfl
      | @string _ c s r hc hok h =>
        -- no header starts in a string
        have hpass : ∀ {c : Text}, isProse c → c.all isInert → ∀ before t : Text,
            occurrencesFrom pattern before 0 (ascii '"' :: (c ++ ascii '"' :: t)) =
              occurrencesFrom pattern (ascii '"' :: (c.reverse ++ ascii '"' :: before)) 0 t := by
          intro c hok hc before t
          have hskips : ∀ k ∈ ks, Skips k before.head? (ascii '"' :: (c ++ [ascii '"'])) t :=
            fun k hk => skips_string (hks k hk).1 (hks k hk).2.1 (hks k hk).2.2 hok hc _ t
          simpa using occurrencesFrom_skips hkeyword hskips
        have hempty := hpass (c := []) rfl rfl before' r
        simp only [List.nil_append, List.reverse_nil] at hempty
        rw [hpass hok hc, hempty]
        simp only [List.length_cons, List.length_append] at hn
        exact ih s.length (by omega) (.string (by simpa using hc) (by simpa using hok) hbefore) h rfl
    · obtain ⟨rfl, rfl⟩ := Prod.mk.inj heq
      simp only at hw
      subst hw
      rw [hbefore.head?_eq] at hr
      rw [occurrencesFrom_found hne hs, occurrencesFrom_found hne hr]
      have hpos := List.length_pos_iff.mpr hne
      simp only [List.length_append] at hn
      refine .cons ⟨rfl, hbefore, by simpa [Occurrence.after] using h'⟩
        (ih s'.length (by omega) (.prepend _ (by rwa [Spacing.foldl_kept])) h' rfl)

/-- The occurrences in a text and in its elision stand at corresponding places. -/
theorem occurrences_elides {pattern : Option UInt8 → Text → Option (α × ℕ)}
    (hpattern : IsRegular pattern) (h : Elides isProse .kept s r) :
    List.Forall₂ (SamePlace isProse) (occurrences pattern s) (occurrences pattern r) :=
  occurrencesFrom_elides hpattern .nil h

end Patterns

/-! ### The text before a header -/

lemma isMember_elides {ok : Text → Bool} (h : Elides ok .kept s r) : isMember s = isMember r := by
  have hdrop := h.dropWhile (p := isBlank) (by decide)
  unfold isMember
  rw [hdrop.head?_eq]

lemma wordBefore_elides {ok : Text → Bool} (h : Elides ok .kept s r) :
    wordBefore s = wordBefore r := by
  have hdrop := h.dropWhile (p := fun b => isBlank b || b == ascii '\n' || b == ascii '\r')
    (by decide)
  exact congrArg List.reverse (hdrop.takeWhile_eq (by decide) (by decide))

/-! ### Enumerations -/

/-- The constants of an enumeration are the same. -/
lemma enumValues_elides (h : Elides isProse .kept s r) : enumValues s = enumValues r := by
  have hlisted : ∀ body : Text, enumValues body =
      ((splitTopLevel (ascii ',') (beforeSemicolon 0 0 body)).map fun item =>
        leadingIdent (Mark.afterLeading (trim item))).filter (!·.isEmpty) := by
    intro body
    rw [← take_semicolonFrom]
    cases hsemicolon : semicolonFrom 0 0 body <;>
      simp only [enumValues, topLevelSemicolon?, hsemicolon, Option.elim]
  have hitems := (h.beforeSemicolon 0 0).splitTopLevel (show isInert (ascii ',') = false by decide)
  have hnames : (splitTopLevel (ascii ',') (beforeSemicolon 0 0 s)).map
        (fun item => leadingIdent (Mark.afterLeading (trim item))) =
      (splitTopLevel (ascii ',') (beforeSemicolon 0 0 r)).map
        (fun item => leadingIdent (Mark.afterLeading (trim item))) := by
    rw [← List.forall₂_eq_eq_eq, List.forall₂_map_left_iff, List.forall₂_map_right_iff]
    exact hitems.imp fun _ _ h => (afterLeading_elides h.trim).leadingIdent_eq
  rw [hlisted, hlisted, hnames]

/-- A text and its elision declare the same enumerations. -/
theorem enums_elides {header : Option UInt8 → Text → Option (Text × ℕ)} (hheader : IsRegular header)
    (h : Elides isProse .kept s r) : enums header s = enums header r := by
  have hplaces := occurrences_elides hheader h
  unfold enums
  rw [← List.forall₂_eq_eq_eq]
  refine List.rel_filterMap (R := SamePlace isProse) ?_ hplaces
  intro o p hplace
  have hvalues : (body? o.after).map enumValues = (body? p.after).map enumValues := by
    rcases rel_cases (body?_elides hplace.after) with ⟨hs, hr⟩ | ⟨x, y, hs, hr, hxy⟩
    · rw [hs, hr]
    · rw [hs, hr, Option.map_some, Option.map_some, enumValues_elides hxy]
  refine rel_of_eq ?_
  simp only [hplace.value, hvalues]

/-! ### Fields -/

/-- The second field is the first one, except for what its type holds between quotes and for what
its annotations say. -/
structure SameField (f g : Field) : Prop where
  name : f.name = g.name
  type : Elides isProse .kept f.type g.type
  optional : f.optional = g.optional

end DtoSchema.Declaration
