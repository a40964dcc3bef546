import DtoSchema.Proofs.Declaration.Names
import DtoSchema.Proofs.Declaration.Lexicon

/-!
# Headers in a source

A header is recognised wherever it is written: the keywords with a space between neighbours, and the
name.  A scan that comes from any text in front of it finds it, unless that text ends with a byte of
a name or with one of the keywords, for then the header in front would take the keyword for its name
(`exists_occurrencesFrom_append` and `width_le_of_header?`).  Between the header and the brace of the
body there may be a clause of words, signs, parenthesized groups and type parameters, over which the
search for the body passes (`body?_clause`).
-/

namespace DtoSchema.Declaration

open Text Source

section Occurrences

variable {α : Type} {pattern : Option UInt8 → Text → Option (α × ℕ)}

/-- The occurrences in a text behind another one are found as if the scan started there, if none
that starts in the other one reaches into it. -/
lemma exists_occurrencesFrom_append {a t : Text}
    (h : ∀ u, u ≠ [] → u <:+ a → ∀ prev v w, pattern prev (u ++ t) = some (v, w) → w ≤ u.length)
    (before : Text) {n : ℕ} (hn : n ≤ a.length) :
    ∃ os, occurrencesFrom pattern before n (a ++ t) =
      os ++ occurrencesFrom pattern (a.reverse ++ before) 0 t := by
  induction a generalizing before n with
  | nil =>
    obtain rfl : n = 0 := by simpa using hn
    exact ⟨[], rfl⟩
  | cons b a ih =>
    have htail : ∀ n ≤ a.length, ∃ os, occurrencesFrom pattern (b :: before) n (a ++ t) =
        os ++ occurrencesFrom pattern ((b :: a).reverse ++ before) 0 t := by
      intro n hn
      obtain ⟨os, hos⟩ := ih (fun u hne hu => h u hne (hu.trans (List.suffix_cons b a)))
        (b :: before) hn
      exact ⟨os, by rw [hos]; simp⟩
    cases n with
    | succ n => exact htail n (by simpa using hn)
    | zero =>
      rw [List.cons_append, occurrencesFrom]
      cases hpattern : pattern before.head? (b :: (a ++ t)) with
      | none => exact htail 0 (Nat.zero_le _)
      | some vw =>
        obtain ⟨v, w⟩ := vw
        have hw : w ≤ a.length + 1 := h (b :: a) (by simp) (List.suffix_refl _) _ v w hpattern
        obtain ⟨os, hos⟩ := htail (w - 1) (by omega)
        exact ⟨⟨before, v, w, b :: (a ++ t)⟩ :: os, congrArg _ hos⟩

end Occurrences

/-! ### Texts in front of a header -/

section Lead

variable {ks : List Text}

/-- One of the keywords stands at the end of the text, gaps apart. -/
def EndsWithKeyword (ks : List Text) (s : Text) : Prop :=
  ∃ k ∈ ks, ∃ g : Text, g.all isGap ∧ k ++ g <:+ s

/-- A header may stand behind the text: it ends neither with a byte of a name nor with a keyword. -/
def startsAfresh (ks : List Text) (s : Text) : Bool :=
  s.getLast?.all (!isIdentPart ·) && ks.all (!endsWith (dropWhileEnd isGap s) ·)

/-- Where a header may stand behind a text, the text does not end with a keyword. -/
lemma not_endsWithKeyword (hks : ∀ k ∈ ks, isKeyword k) {s : Text} (h : startsAfresh ks s) :
    ¬ EndsWithKeyword ks s := by
  rintro ⟨k, hk, g, hg, v, rfl⟩
  have hdrop : dropWhileEnd isGap (v ++ (k ++ g)) = v ++ k := by
    have hkey := hks k hk
    cases k using List.reverseRecOn with
    | nil => simp [isKeyword] at hkey
    | append_singleton k b =>
      have hb : isGap b = false := by
        by_contra hb
        have hword := isWord_of_isGap (Bool.eq_true_of_not_eq_false hb)
        simp [isKeyword, hword] at hkey
      have hgaps : ∀ c ∈ g.reverse, isGap c = true := by simpa using hg
      simp [dropWhileEnd, List.dropWhile_append_of_pos hgaps, hb]
  simp only [startsAfresh, Bool.and_eq_true, List.all_eq_true, Bool.not_eq_true'] at h
  have hends : k.isSuffixOf (v ++ k) := List.isSuffixOf_iff_suffix.mpr (List.suffix_append v k)
  have hnot := h.2 k hk
  simp [endsWith, hdrop, hends] at hnot

/-- The text is a part of a header: whatever ends inside of it ends with a byte of a name or with a
keyword. -/
def IsHeaderPart (ks : List Text) (c : Text) : Prop :=
  ∀ a, a ≠ [] → a <+: c → a.getLast?.any isIdentPart ∨ EndsWithKeyword ks a

namespace IsHeaderPart

variable {c d g : Text}

/-- Bytes of names are a part of a header. -/
lemma of_isIdentPart (h : c.all isIdentPart) : IsHeaderPart ks c := by
  intro a hne ha
  refine Or.inl ?_
  rw [List.getLast?_eq_some_getLast hne]
  exact List.all_eq_true.mp h _ (ha.subset (List.getLast_mem hne))

/-- Two parts of a header are one. -/
lemma append (hc : IsHeaderPart ks c) (hd : IsHeaderPart ks d) : IsHeaderPart ks (c ++ d) := by
  rintro a hne ⟨r, hr⟩
  rcases List.append_eq_append_iff.mp hr with ⟨c', rfl, -⟩ | ⟨a', rfl, rfl⟩
  · exact hc a hne (List.prefix_append a c')
  · rcases eq_or_ne a' [] with rfl | hne'
    · simpa using hc c (by simpa using hne) (List.prefix_refl c)
    · rcases hd a' hne' (List.prefix_append a' r) with hlast | ⟨k, hk, g, hg, hends⟩
      · exact Or.inl (getLast?_append_any c hlast)
      · exact Or.inr ⟨k, hk, g, hg, hends.trans (List.suffix_append c a')⟩

/-- Gaps behind a keyword go on with a header. -/
lemma append_gaps (hc : IsHeaderPart ks c) {k : Text} (hk : k ∈ ks) (hends : k <:+ c)
    (hg : g.all isGap) : IsHeaderPart ks (c ++ g) := by
  rintro a hne ⟨r, hr⟩
  rcases List.append_eq_append_iff.mp hr with ⟨c', rfl, -⟩ | ⟨a', rfl, rfl⟩
  · exact hc a hne (List.prefix_append a c')
  · obtain ⟨v, rfl⟩ := hends
    refine Or.inr ⟨k, hk, a', ?_, v, by simp⟩
    exact (List.all_append.symm.trans hg |> Bool.and_eq_true_iff.mp).1

end IsHeaderPart

/-- Keywords at the start of a text are a part of a header. -/
lemma exists_of_afterKeywords? {ks' : List Text} (hne : ks' ≠ [])
    (hks : ∀ k ∈ ks', isKeyword k ∧ k ∈ ks) {s rest : Text}
    (h : afterKeywords? ks' s = some rest) :
    ∃ c, s = c ++ rest ∧ IsHeaderPart ks c ∧ ∃ k ∈ ks, k <:+ c := by
  have hkeyword : ∀ k, isKeyword k = true → IsHeaderPart ks k := by
    intro k hk
    simp only [isKeyword, Bool.and_eq_true, List.all_eq_true] at hk
    exact .of_isIdentPart (List.all_eq_true.mpr fun b hb => isIdentPart_of_isWord (hk.2 b hb))
  induction ks' generalizing s with
  | nil => exact absurd rfl hne
  | cons k ks' ih =>
    obtain ⟨hk, hks'⟩ := List.forall_mem_cons.mp hks
    cases ks' with
    | nil => exact ⟨k, afterPrefix?_eq_some_iff.mp h, hkeyword k hk.1, k, hk.2, List.suffix_refl k⟩
    | cons k' ks' =>
      simp only [afterKeywords?, Option.bind_eq_some_iff] at h
      obtain ⟨u, ⟨r, hr, hu⟩, hrest⟩ := h
      obtain ⟨g, hg, rfl, -⟩ := exists_of_afterGaps? hu
      obtain ⟨c, rfl, hc, k₁, hk₁, hends⟩ := ih (by simp) hks' hrest
      refine ⟨k ++ g ++ c, ?_, ?_, k₁, hk₁, hends.trans (List.suffix_append _ c)⟩
      · rw [afterPrefix?_eq_some_iff.mp hr]
        simp
      · exact ((hkeyword k hk.1).append_gaps hk.2 (List.suffix_refl k) hg).append hc

/-- The name behind gaps at the start of a text, the gaps and what follows the name. -/
lemma exists_of_nameAfterGaps? {start part : UInt8 → Bool} {s name : Text}
    (h : nameAfterGaps? start part s = some name) :
    ∃ g t, g.all isGap ∧ s = g ++ name ++ t ∧ skipGaps s = name ++ t := by
  unfold nameAfterGaps? at h
  split at h
  · next b rest hgaps =>
    obtain ⟨g, hg, rfl, hskip⟩ := exists_of_afterGaps? hgaps
    by_cases hb : start b
    · obtain rfl : b :: rest.takeWhile part = name := by simpa [hb] using h
      refine ⟨g, rest.dropWhile part, hg, ?_, ?_⟩
      · simp
      · simp [hskip]
    · simp [hb] at h
  · simp at h

/-- A header that starts in a text does not reach behind it, if the text ends neither with a byte of
a name nor with a keyword. -/
lemma width_le_of_header? (hne : ks ≠ []) (hks : ∀ k ∈ ks, isKeyword k) {start part : UInt8 → Bool}
    (hbytes : AreIdentBytes start part) {u t : Text} (hu : u ≠ [])
    (hlast : u.getLast?.any isIdentPart = false) (hends : ¬ EndsWithKeyword ks u)
    {prev : Option UInt8} {name : Text} {w : ℕ}
    (h : header? ks start part prev (u ++ t) = some (name, w)) : w ≤ u.length := by
  have hname : name.all isIdentPart := by
    obtain ⟨b, rest, rfl, hb, hrest⟩ := exists_name_of_header? h
    simp only [List.all_cons, Bool.and_eq_true, List.all_eq_true] at hrest ⊢
    exact ⟨by simp [isIdentPart, hbytes.1 b hb], fun c hc => hbytes.2 c (hrest c hc)⟩
  unfold header? at h
  split at h
  · obtain ⟨rest, hrest, h⟩ := Option.bind_eq_some_iff.mp h
    obtain ⟨found, hfound, heq⟩ := Option.map_eq_some_iff.mp h
    obtain ⟨rfl, hw⟩ := Prod.mk.inj heq
    obtain ⟨c, hc, hheader, k, hk, hsuffix⟩ :=
      exists_of_afterKeywords? hne (fun k hk => ⟨hks k hk, hk⟩) hrest
    obtain ⟨g, x, hg, rfl, hskip⟩ := exists_of_nameAfterGaps? hfound
    have hall : IsHeaderPart ks (c ++ g ++ found) :=
      (hheader.append_gaps hk hsuffix hg).append (.of_isIdentPart hname)
    have htext : u ++ t = (c ++ g ++ found) ++ x := by rw [hc]; simp
    -- otherwise the text would end inside of the header
    by_contra hlt
    have hlen : w = (c ++ g ++ found).length := by
      rw [← hw, htext, hskip]
      simp only [List.length_append]
      omega
    have hprefix : u <+: c ++ g ++ found :=
      List.prefix_of_prefix_length_le (List.prefix_append u t)
        (htext ▸ List.prefix_append _ x) (by omega)
    rcases hall u hu hprefix with hident | hkeyword
    · simp [hlast] at hident
    · exact hends hkeyword
  · simp at h

end Lead

/-! ### Written headers -/

section Written

variable {ks : List Text} {start part : UInt8 → Bool}

/-- A written header is found behind every text behind which it may stand. -/
theorem exists_occurrences_header (hne : ks ≠ []) (hks : ∀ k ∈ ks, isKeyword k)
    (hbytes : AreIdentBytes start part) {pre : Text} (hpre : startsAfresh ks pre) {b : UInt8}
    {name t : Text} (hb : start b) (hname : name.all part) (ht : t.head?.any part = false) :
    ∃ earlier later, occurrences (header? ks start part)
        (pre ++ (join " " ks ++ ascii ' ' :: b :: name ++ t)) =
      earlier ++ ⟨pre.reverse, b :: name, (join " " ks ++ ascii ' ' :: b :: name).length,
        join " " ks ++ ascii ' ' :: b :: name ++ t⟩ :: later := by
  have hafresh := hpre
  simp only [startsAfresh, Bool.and_eq_true] at hafresh
  -- no header that starts in front reaches into this one
  have hwidth : ∀ u, u ≠ [] → u <:+ pre → ∀ prev v w, header? ks start part prev
      (u ++ (join " " ks ++ ascii ' ' :: b :: name ++ t)) = some (v, w) → w ≤ u.length := by
    rintro u hu ⟨v, rfl⟩ prev _ w h
    have hlast : u.getLast?.any isIdentPart = false := by
      have hlast := hafresh.1
      rw [List.getLast?_append, List.getLast?_eq_some_getLast hu] at hlast
      rw [List.getLast?_eq_some_getLast hu]
      simpa using hlast
    refine width_le_of_header? hne hks hbytes hu hlast ?_ h
    rintro ⟨k, hk, g, hg, hends⟩
    exact not_endsWithKeyword hks hpre ⟨k, hk, g, hg, hends.trans (List.suffix_append v u)⟩
  obtain ⟨earlier, hearlier⟩ := exists_occurrencesFrom_append hwidth [] (Nat.zero_le pre.length)
  have hprev : (pre.reverse ++ []).head?.any isWord = false := by
    rw [List.append_nil, List.head?_reverse]
    cases h : pre.getLast? with
    | none => rfl
    | some c =>
      have hc : isIdentPart c = false := by simpa [h] using hafresh.1
      by_contra hne
      simp [isIdentPart_of_isWord (b := c) (by simpa using hne)] at hc
  have hgap : ∀ c, start c = true → isGap c = false :=
    fun c hc => isGap_of_isInk (isInk_of_isIdentStart (hbytes.1 c hc))
  have hheader := header?_join hne hks hgap hprev hb hname ht
  have htext : join " " ks ++ ascii ' ' :: b :: (name ++ t) =
      join " " ks ++ ascii ' ' :: b :: name ++ t := by simp
  rw [htext] at hheader
  rw [occurrencesFrom_found (by simp) hheader, List.append_nil] at hearlier
  exact ⟨earlier, _, hearlier⟩

end Written

/-! ### Between a header and its body -/

/-- The text can stand between the name of a declaration and the brace of its body. -/
inductive IsClause : Text → Prop
  /-- The empty text. -/
  | nil : IsClause []
  /-- A byte that starts no word and means nothing in a header. -/
  | sign {b : UInt8} {s : Text} : isIdentStart b = false → b ∉ utf8 "\x7b(<;\x7d=)" →
      IsClause s → IsClause (b :: s)
  /-- A word that starts no declaration. -/
  | word {w s : Text} : isIdent w → w ∉ declarationWords → s.head?.any isIdentPart = false →
      IsClause s → IsClause (w ++ s)
  /-- A group in parentheses or angle brackets. -/
  | group {o c : UInt8} {t s : Text} : (o, c) ∈ [(ascii '(', ascii ')'), (ascii '<', ascii '>')] →
      Balanced (.single o c) t → IsClause s → IsClause (o :: (t ++ c :: s))

/-- Bytes that have been looked at are passed. -/
lemma bodyStartFrom?_pass (a t : Text) : bodyStartFrom? a.length (a ++ t) = bodyStartFrom? 0 t := by
  induction a with
  | nil => rfl
  | cons b a ih => simpa [bodyStartFrom?] using ih

lemma mem_headerSigns {b : UInt8} : b ∈ utf8 "\x7b(<;\x7d=)" ↔ b = ascii '\x7b' ∨ b = ascii '(' ∨
    b = ascii '<' ∨ b = ascii ';' ∨ b = ascii '\x7d' ∨ b = ascii '=' ∨ b = ascii ')' := by
  have hbytes : utf8 "\x7b(<;\x7d=)" = [ascii '\x7b', ascii '(', ascii '<', ascii ';',
    ascii '\x7d', ascii '=', ascii ')'] := by decide
  simp only [hbytes, List.mem_cons, List.not_mem_nil, or_false]

/-- At a byte that means nothing the word that it starts decides. -/
lemma bodyStartFrom?_word {b : UInt8} {s : Text} (hb : b ∉ utf8 "\x7b(<;\x7d=)") :
    bodyStartFrom? 0 (b :: s) = if identAt (b :: s) ∈ declarationWords then none
      else bodyStartFrom? ((identAt (b :: s)).length - 1) s := by
  simp only [mem_headerSigns, not_or] at hb
  rw [bodyStartFrom?, if_neg hb.1, if_neg hb.2.1, if_neg hb.2.2.1, if_neg (by tauto)]

/-- A byte that means nothing is passed together with the word that it starts. -/
lemma bodyStartFrom?_step {b : UInt8} {s : Text} (hb : b ∉ utf8 "\x7b(<;\x7d=)")
    (hword : identAt (b :: s) ∉ declarationWords) :
    bodyStartFrom? 0 (b :: s) = bodyStartFrom? ((identAt (b :: s)).length - 1) s := by
  rw [bodyStartFrom?_word hb, if_neg hword]

/-- The search for a body stops at a word that starts a declaration. -/
lemma bodyStart?_eq_none {b : UInt8} {s : Text} (hb : isIdentStart b)
    (hword : identAt (b :: s) ∈ declarationWords) : bodyStart? (b :: s) = none := by
  rw [bodyStart?, bodyStartFrom?_word (notMem_of_class (by decide) hb), if_pos hword]

lemma bodyStart?_sign {b : UInt8} (hb : isIdentStart b = false) (hmem : b ∉ utf8 "\x7b(<;\x7d=)")
    (s : Text) : bodyStart? (b :: s) = bodyStart? s := by
  have hident := identAt_eq_nil hb s
  rw [bodyStart?, bodyStartFrom?_step hmem (by rw [hident]; decide), hident]
  rfl

lemma bodyStart?_word {w t : Text} (hw : isIdent w) (hmem : w ∉ declarationWords)
    (ht : t.head?.any isIdentPart = false) : bodyStart? (w ++ t) = bodyStart? t := by
  have hident := identAt_append hw ht
  cases w with
  | nil => simp [isIdent] at hw
  | cons b w =>
    simp only [isIdent, Bool.and_eq_true] at hw
    rw [List.cons_append] at *
    rw [bodyStart?, bodyStartFrom?_step (notMem_of_class (by decide) hw.1) (by rwa [hident]),
      hident]
    exact bodyStartFrom?_pass w t

/-- A group is passed as a whole, and there is no body behind one that is never closed. -/
lemma bodyStart?_group {o c : UInt8}
    (hp : (o, c) ∈ [(ascii '(', ascii ')'), (ascii '<', ascii '>')]) (s : Text) :
    bodyStart? (o :: s) = (readBalanced? o c (o :: s)).bind fun x => bodyStart? x.2 := by
  have hstep : bodyStart? (o :: s) =
      (readBalanced? o c (o :: s)).bind fun x => bodyStartFrom? (x.1.length + 1) s := by
    simp only [List.mem_cons, Prod.mk.injEq, List.not_mem_nil, or_false] at hp
    rcases hp with ⟨rfl, rfl⟩ | ⟨rfl, rfl⟩
    · rw [bodyStart?, bodyStartFrom?, if_neg (by decide), if_pos rfl]
    · rw [bodyStart?, bodyStartFrom?, if_neg (by decide), if_neg (by decide), if_pos rfl]
  rw [hstep]
  refine Option.bind_congr fun x hx => ?_
  obtain ⟨content, rest⟩ := x
  have hpass := bodyStartFrom?_pass (content ++ [c]) rest
  rw [(List.cons.inj (eq_of_readBalanced? hx)).2]
  simpa [bodyStart?] using hpass

/-- A group with matching brackets is passed. -/
lemma bodyStart?_nested {o c : UInt8}
    (hp : (o, c) ∈ [(ascii '(', ascii ')'), (ascii '<', ascii '>')]) {i : Text}
    (hi : Balanced (Brackets.single o c) i) (s : Text) :
    bodyStart? (o :: (i ++ c :: s)) = bodyStart? s := by
  have hproper : (Brackets.single o c).isProper := by
    simp only [List.mem_cons, Prod.mk.injEq, List.not_mem_nil, or_false] at hp
    rcases hp with ⟨rfl, rfl⟩ | ⟨rfl, rfl⟩ <;> decide
  rw [bodyStart?_group hp, readBalanced?_nested hproper hi, Option.bind_some]

/-- The search for a body passes over a clause. -/
lemma bodyStart?_append {s : Text} (h : IsClause s) {t : Text}
    (ht : t.head?.any isIdentPart = false) : bodyStart? (s ++ t) = bodyStart? t := by
  induction h with
  | nil => rfl
  | sign hb hmem _ ih => rw [List.cons_append, bodyStart?_sign hb hmem, ih]
  | @word w s hw hmem hs _ ih =>
    have hhead : (s ++ t).head?.any isIdentPart = false := by
      cases s with
      | nil => exact ht
      | cons b s => simpa using hs
    rw [List.append_assoc, bodyStart?_word hw hmem hhead, ih]
  | @group o c i s hp hi _ ih =>
    rw [List.cons_append, List.append_assoc, List.cons_append, bodyStart?_nested hp hi, ih]

/-- A clause ends at the brace of the body. -/
lemma bodyStart?_clause {s : Text} (h : IsClause s) (t : Text) :
    bodyStart? (s ++ ascii '\x7b' :: t) = some (ascii '\x7b' :: t) := by
  rw [bodyStart?_append h (by simp; decide)]
  rfl

/-- The block behind a clause is the body. -/
lemma body?_clause {s body : Text} (hs : IsClause s) (hbody : Balanced .braces body) (t : Text) :
    body? (s ++ blockText body ++ t) = some body := by
  have htext : s ++ blockText body ++ t = s ++ ascii '\x7b' :: (body ++ ascii '\x7d' :: t) := by
    simp [blockText]
  rw [htext, body?, bodyStart?_clause hs, Option.bind_some, readBalanced?_nested (by decide) hbody,
    Option.map_some]

end DtoSchema.Declaration
