import DtoSchema.Declaration.Header
import DtoSchema.Proofs.Text.Trimming

/-!
# Keywords in a text

Headers of declarations are found by their keyword: it stands at the start of a word, and a gap
follows it.  `Free k a` says that the keyword `k` never stands in `a` in this way, whatever
surrounds `a`, as long as `a` is not in the middle of a word there.  Texts that are free of a
keyword can be put next to each other (`Free.append`), which gives the freedom of a printed text
from that of its parts.

A scan for headers passes over a text that is free of their keyword (`occurrencesFrom_free`), and
finds a printed header with its name (`occurrencesFrom_header`).
-/

namespace DtoSchema.Declaration

open Text Source

/-! ### Places of a keyword -/

/-- The text can be a keyword: it is a word. -/
def isKeyword (k : Text) : Bool := k.head?.any isWord && k.all isWord

/-- A gap is no word byte. -/
lemma isWord_of_isGap {b : UInt8} (h : isGap b) : isWord b = false :=
  Bool.eq_false_iff.mpr fun hb => by simp [isGap_of_isInk (isInk_of_isWord hb)] at h

/-- The keyword `k` starts a word here, and a gap follows it. -/
def keywordAt (k : Text) (prev : Option UInt8) (s : Text) : Bool :=
  !prev.any isWord && (afterPrefix? k s).any (·.head?.any isGap)

/-- Where a keyword stands, the text goes on with the keyword and a gap. -/
lemma keywordAt_iff {k : Text} {prev : Option UInt8} {s : Text} :
    keywordAt k prev s ↔
      prev.any isWord = false ∧ ∃ r : Text, s = k ++ r ∧ r.head?.any isGap := by
  simp only [keywordAt, Bool.and_eq_true, Bool.not_eq_true', Option.any_eq_true]
  constructor
  · rintro ⟨hprev, r, hr, hgap⟩
    exact ⟨hprev, r, afterPrefix?_eq_some_iff.mp hr, hgap⟩
  · rintro ⟨hprev, r, rfl, hgap⟩
    exact ⟨hprev, r, afterPrefix?_append k r, hgap⟩

/-- No keyword stands at a byte inside a word. -/
lemma keywordAt_inside {k : Text} {b : UInt8} (hb : isWord b) (s : Text) :
    keywordAt k (some b) s = false := by
  simp [keywordAt, hb]

/-- No keyword stands at a byte that is no word byte. -/
lemma keywordAt_outside {k : Text} (hk : isKeyword k) {b : UInt8} (hb : isWord b = false)
    (prev : Option UInt8) (s : Text) : keywordAt k prev (b :: s) = false := by
  by_contra h
  obtain ⟨-, r, hr, -⟩ := keywordAt_iff.mp (Bool.eq_true_of_not_eq_false h)
  cases k with
  | nil => simp [isKeyword] at hk
  | cons c k =>
    obtain ⟨rfl, -⟩ := List.cons.inj hr
    simp [isKeyword, hb] at hk

/-! ### Texts without a keyword -/

/-- The keyword `k` stands at no place of `a`, if `prev` is the byte before it and `t` the text
behind it. -/
def Skips (k : Text) : (prev : Option UInt8) → (a t : Text) → Prop
  | _, [], _ => True
  | prev, b :: a, t => keywordAt k prev (b :: (a ++ t)) = false ∧ Skips k (some b) a t

/-- No keyword stands inside of a word. -/
lemma skips_inside {k a t : Text} {b : UInt8} (hb : isWord b) (ha : a.all isWord) :
    Skips k (some b) a t := by
  induction a generalizing b with
  | nil => trivial
  | cons c a ih =>
    simp only [List.all_cons, Bool.and_eq_true] at ha
    exact ⟨keywordAt_inside hb _, ih ha.1 ha.2⟩

/-- Not both neighbours of a place are word bytes. -/
def apart (l r : Option UInt8) : Bool := !(l.any isWord && r.any isWord)

/-- The keyword `k` stands at no place of `a`, whatever surrounds `a` without continuing a word. -/
def Free (k a : Text) : Prop :=
  ∀ (prev : Option UInt8) (t : Text), apart prev a.head? → apart a.getLast? t.head? →
    Skips k prev a t

/-- The places of two texts are those of the first, with the second behind it, and those of the
second. -/
lemma skips_append {k : Text} {prev : Option UInt8} {a b t : Text} :
    Skips k prev (a ++ b) t ↔ Skips k prev a (b ++ t) ∧ Skips k (a.getLast?.or prev) b t := by
  induction a generalizing prev with
  | nil => simp [Skips]
  | cons c a ih =>
    have hlast : (c :: a).getLast?.or prev = a.getLast?.or (some c) := by
      cases h : a.getLast? with
      | none =>
        obtain rfl := List.getLast?_eq_none_iff.mp h
        rfl
      | some d => simp [List.getLast?_cons, h]
    simp only [List.cons_append, Skips, ih, hlast, List.append_assoc, and_assoc]

namespace Free

variable {k a b : Text}

/-- The empty text holds no keyword. -/
lemma nil : Free k [] := fun _ _ _ _ => trivial

/-- Two texts without the keyword that are not parts of one word hold no keyword together. -/
lemma append (ha : Free k a) (hb : Free k b) (h : apart a.getLast? b.head?) : Free k (a ++ b) := by
  intro prev t hprev ht
  rcases eq_or_ne a [] with rfl | hane
  · exact hb prev t hprev ht
  rcases eq_or_ne b [] with rfl | hbne
  · rw [List.append_nil] at hprev ht ⊢
    exact ha prev t hprev ht
  rw [List.head?_append_of_ne_nil _ hane] at hprev
  rw [List.getLast?_append_of_ne_nil _ hbne] at ht
  have hlast : a.getLast?.or prev = a.getLast? := by
    simp [List.getLast?_eq_some_getLast hane]
  refine skips_append.mpr ⟨ha prev (b ++ t) hprev ?_, ?_⟩
  · rwa [List.head?_append_of_ne_nil _ hbne]
  · rw [hlast]
    exact hb _ t h ht

/-- Bytes outside of words hold no keyword. -/
lemma of_not_word (hk : isKeyword k) (ha : a.all (!isWord ·)) : Free k a := by
  intro prev t hprev ht
  clear hprev ht
  induction a generalizing prev with
  | nil => trivial
  | cons b a ih =>
    simp only [List.all_cons, Bool.and_eq_true, Bool.not_eq_true'] at ha
    exact ⟨keywordAt_outside hk ha.1 prev _, ih ha.2 _⟩

/-- A word that is not the keyword does not hold it. -/
lemma of_word (hk : isKeyword k) (ha : a.all isWord) (hne : a ≠ k) : Free k a := by
  simp only [isKeyword, Bool.and_eq_true] at hk
  intro prev t _ ht
  cases a with
  | nil => trivial
  | cons b u =>
    have hb : isWord b ∧ u.all isWord := by simpa using ha
    refine ⟨?_, skips_inside hb.1 hb.2⟩
    by_contra hat
    obtain ⟨-, r, hr, hgap⟩ := keywordAt_iff.mp (Bool.eq_true_of_not_eq_false hat)
    have hlast : (b :: u).getLast?.any isWord := by
      rw [List.getLast?_eq_some_getLast (List.cons_ne_nil b u)]
      exact List.all_eq_true.mp ha _ (List.getLast_mem _)
    have hthead : t.head?.any isWord = false := by simpa [apart, hlast] using ht
    have hrhead : r.head?.any isWord = false := by
      cases r with
      | nil => rfl
      | cons c r => exact isWord_of_isGap (by simpa using hgap)
    exact hne (run_append_inj ha hk.2 hthead hrhead hr).1

/-- A text without gaps whose last byte is no word byte holds no keyword that a gap follows. -/
lemma of_not_gap (hk : isKeyword k) (ha : a.all (!isGap ·)) (hlast : a.getLast?.all (!isWord ·)) :
    Free k a := by
  intro prev t hprev ht
  clear hprev ht
  induction a generalizing prev with
  | nil => trivial
  | cons b a ih =>
    have hcover : ∀ u : Text, k ≠ (b :: a) ++ u := by
      rintro u rfl
      simp only [isKeyword, Bool.and_eq_true, List.all_append] at hk
      have hword := List.all_eq_true.mp hk.2.1 _ (List.getLast_mem (List.cons_ne_nil b a))
      rw [List.getLast?_eq_some_getLast (List.cons_ne_nil b a)] at hlast
      simp [hword] at hlast
    refine ⟨?_, ?_⟩
    · by_contra hat
      obtain ⟨-, r, hr, hgap⟩ := keywordAt_iff.mp (Bool.eq_true_of_not_eq_false hat)
      rcases List.append_eq_append_iff.mp (show (b :: a) ++ t = k ++ r from hr) with
        ⟨u, hku, -⟩ | ⟨u, hau, hru⟩
      · exact hcover u hku
      · cases u with
        | nil => exact hcover [] (by simpa using hau.symm)
        | cons c u =>
          -- the gap behind the keyword is a byte of the text
          have hc : isGap c := by simpa [hru] using hgap
          have hnot := List.all_eq_true.mp ha c (by simp [hau])
          simp [hc] at hnot
    · simp only [List.all_cons, Bool.and_eq_true] at ha
      refine ih ha.2 ?_ _
      cases a with
      | nil => rfl
      | cons c a => simpa [List.getLast?_cons_cons] using hlast

end Free

/-! ### Texts without a word -/

/-- The word `k` stands here: no word byte comes before it and none behind it. -/
def wordAt (k : Text) (prev : Option UInt8) (s : Text) : Bool :=
  !prev.any isWord && (afterPrefix? k s).any (!·.head?.any isWord)

/-- `lacksWord` from inside a text, where `prev` is the byte before. -/
def lacksWordFrom (k : Text) (prev : Option UInt8) : Text → Bool
  | [] => true
  | b :: s => !wordAt k prev (b :: s) && lacksWordFrom k (some b) s

/-- The word `k` does not occur in the text. -/
def lacksWord (k s : Text) : Bool := lacksWordFrom k none s

/-- Where a word is absent, it is no keyword.  What is known about the byte before may be more than
that it is no word byte. -/
lemma skips_of_lacksWordFrom {k t : Text} (hk : isKeyword k) {a : Text} {prev prev' : Option UInt8}
    (hprev : prev.any isWord = false → prev'.any isWord = false) (ha : lacksWordFrom k prev' a)
    (ht : apart a.getLast? t.head?) : Skips k prev a t := by
  induction a generalizing prev prev' with
  | nil => trivial
  | cons b a ih =>
    simp only [lacksWordFrom, Bool.and_eq_true, Bool.not_eq_true'] at ha
    have hrest : apart a.getLast? t.head? := by
      cases a with
      | nil => simp [apart]
      | cons c a => simpa [List.getLast?_cons_cons] using ht
    refine ⟨?_, ih (fun h => h) ha.2 hrest⟩
    by_contra hat
    obtain ⟨hword, r, hr, hgap⟩ := keywordAt_iff.mp (Bool.eq_true_of_not_eq_false hat)
    have habsent : ∀ u : Text, b :: a = k ++ u → u.head?.any isWord = true := by
      intro u hu
      by_contra hhead
      have hat : wordAt k prev' (b :: a) := by
        simp [wordAt, hprev hword, hu, Bool.eq_false_of_not_eq_true hhead]
      simp [hat] at ha
    rcases List.append_eq_append_iff.mp (show (b :: a) ++ t = k ++ r from hr) with
      ⟨u, hku, htu⟩ | ⟨u, hau, hru⟩
    · -- the keyword reaches into what follows, which then continues a word
      cases u with
      | nil => simpa using habsent [] (by simpa using hku.symm)
      | cons c u =>
        simp only [isKeyword, hku, List.all_append, Bool.and_eq_true] at hk
        have hlast : (b :: a).getLast?.any isWord := by
          rw [List.getLast?_eq_some_getLast (List.cons_ne_nil b a)]
          exact List.all_eq_true.mp hk.2.1 _ (List.getLast_mem (List.cons_ne_nil b a))
        have hc : isWord c := List.all_eq_true.mp hk.2.2 c (by simp)
        simp [apart, hlast, htu, hc] at ht
    · -- the gap stands right behind the keyword
      have hhead := habsent u hau
      cases u with
      | nil => simp at hhead
      | cons c u =>
        have hc : isGap c := by simpa [hru] using hgap
        simp [isWord_of_isGap hc] at hhead

/-- A text in which the keyword does not occur as a word is free of it. -/
lemma Free.of_lacksWord {k a : Text} (hk : isKeyword k) (ha : lacksWord k a) : Free k a :=
  fun _ _ _ ht => skips_of_lacksWordFrom hk (fun _ => rfl) ha ht

/-! ### Separators -/

/-- The text is not empty and has no word byte. -/
def isSep (s : Text) : Bool := !s.isEmpty && s.all (!isWord ·)

/-- What stands before a separator ends there. -/
lemma apart_sep {s : Text} (hs : isSep s) (prev : Option UInt8) (t : Text) :
    apart prev (s ++ t).head? := by
  cases s with
  | nil => simp [isSep] at hs
  | cons b s =>
    simp only [isSep, List.all_cons, Bool.and_eq_true, Bool.not_eq_true'] at hs
    simp [apart, hs.2.1]

/-- What stands behind a separator starts there. -/
lemma getLast?_sep {s : Text} (hs : isSep s) (a : Text) : (a ++ s).getLast?.any isWord = false := by
  simp only [isSep, Bool.and_eq_true, Bool.not_eq_true', List.isEmpty_eq_false_iff] at hs
  rw [List.getLast?_append_of_ne_nil _ hs.1, List.getLast?_eq_some_getLast hs.1]
  simpa using List.all_eq_true.mp hs.2 _ (List.getLast_mem hs.1)

namespace Free

variable {k a b s : Text}

/-- A separator holds no keyword. -/
lemma of_sep (hk : isKeyword k) (hs : isSep s) : Free k s := by
  simp only [isSep, Bool.and_eq_true] at hs
  exact of_not_word hk hs.2

/-- A separator at the end changes nothing. -/
lemma append_sep (hk : isKeyword k) (ha : Free k a) (hs : isSep s) : Free k (a ++ s) :=
  ha.append (of_sep hk hs) (by simpa using apart_sep hs a.getLast? [])

/-- A separator at the start changes nothing. -/
lemma sep_append (hk : isKeyword k) (hs : isSep s) (hb : Free k b) : Free k (s ++ b) := by
  refine (of_sep hk hs).append hb ?_
  have hlast := getLast?_sep hs []
  simp only [List.nil_append] at hlast
  simp [apart, hlast]

/-- Two texts with a separator between them hold no keyword if none of them does. -/
lemma separated (hk : isKeyword k) (ha : Free k a) (hs : isSep s) (hb : Free k b) :
    Free k (a ++ s ++ b) :=
  (ha.append_sep hk hs).append hb (by rw [apart, getLast?_sep hs a]; rfl)

/-- Texts with a separator behind each of them hold no keyword together with what follows if none
of them does. -/
lemma flatMap_sep {α : Type} (hk : isKeyword k) {f : α → Text} {xs : List α}
    (h : ∀ x ∈ xs, Free k (f x)) (hs : isSep s) (hb : Free k b) :
    Free k (xs.flatMap (fun x => f x ++ s) ++ b) := by
  induction xs with
  | nil => exact hb
  | cons x xs ih =>
    obtain ⟨hx, hxs⟩ := List.forall_mem_cons.mp h
    simpa using hx.separated hk hs (ih hxs)

/-- Texts with a separator between neighbours hold no keyword together if none of them does. -/
lemma join_sep (hk : isKeyword k) {parts : List Text} (h : ∀ p ∈ parts, Free k p) (hs : isSep s) :
    Free k (join s parts) := by
  induction parts with
  | nil => exact nil
  | cons p ps ih =>
    obtain ⟨hp, hps⟩ := List.forall_mem_cons.mp h
    cases ps with
    | nil => simpa [join] using hp
    | cons q qs =>
      rw [join_cons_cons]
      exact hp.separated hk hs (ih hps)

end Free

/-! ### Tight texts -/

/-- No word byte has a gap right behind it. -/
def isTight : Text → Bool
  | b :: c :: s => !(isWord b && isGap c) && isTight (c :: s)
  | _ => true

/-- Two tight texts are tight together if no gap follows a word where they meet. -/
lemma isTight_append {a b : Text} (ha : isTight a) (hb : isTight b)
    (h : a.getLast?.any isWord = false ∨ b.head?.any isGap = false) : isTight (a ++ b) := by
  fun_induction isTight a with
  | case1 c d a ih =>
    simp only [Bool.and_eq_true, List.getLast?_cons_cons] at ha h
    simp only [List.cons_append, isTight, Bool.and_eq_true]
    exact ⟨ha.1, by simpa using ih ha.2 h⟩
  | case2 a hne =>
    match a with
    | [] => exact hb
    | [c] =>
      cases b with
      | nil => rfl
      | cons d b => simp_all [isTight]
    | c :: d :: a => exact absurd rfl (hne c d a)

/-- A text without gaps is tight. -/
lemma isTight_of_not_gap {a : Text} (ha : a.all (!isGap ·)) : isTight a := by
  fun_induction isTight a with
  | case1 c d a ih =>
    simp only [List.all_cons, Bool.and_eq_true, Bool.not_eq_true'] at ha ih
    simp [ha.2.1, ih ⟨ha.2.1, ha.2.2⟩]
  | case2 a hne => rfl

/-- No keyword stands in a tight text that ends the source. -/
lemma skips_of_isTight {k a : Text} (hk : isKeyword k) (ha : isTight a) (prev : Option UInt8) :
    Skips k prev a [] := by
  induction a generalizing prev with
  | nil => trivial
  | cons b a ih =>
    have hrest : isTight a := by
      cases a with
      | nil => rfl
      | cons c a =>
        simp only [isTight, Bool.and_eq_true] at ha
        exact ha.2
    refine ⟨?_, ih hrest _⟩
    by_contra hat
    obtain ⟨-, r, hr, hgap⟩ := keywordAt_iff.mp (Bool.eq_true_of_not_eq_false hat)
    -- the last byte of the keyword and the gap behind it are neighbours
    have hloose : ∀ u : Text, u.head?.any isWord → u.all isWord → isTight (u ++ r) = false := by
      intro u
      induction u with
      | nil => simp
      | cons c u ihu =>
        intro _ hall
        simp only [List.all_cons, Bool.and_eq_true] at hall
        cases u with
        | nil =>
          cases r with
          | nil => simp at hgap
          | cons d r =>
            have hd : isGap d := by simpa using hgap
            simp [isTight, hall.1, hd]
        | cons d u =>
          have hd : isWord d := List.all_eq_true.mp hall.2 d (by simp)
          have htail := ihu (by simpa using hd) hall.2
          simp only [List.cons_append] at htail
          simp [isTight, htail]
    simp only [isKeyword, Bool.and_eq_true] at hk
    have hfalse := hloose k hk.1 hk.2
    rw [← hr, List.append_nil, ha] at hfalse
    exact absurd hfalse (by simp)

/-! ### Occurrences -/

section Occurrences

variable {α : Type} {pattern : Option UInt8 → Text → Option (α × ℕ)}

/-- Bytes that belong to the last occurrence are passed. -/
lemma occurrencesFrom_pass (a before t : Text) :
    occurrencesFrom pattern before a.length (a ++ t) =
      occurrencesFrom pattern (a.reverse ++ before) 0 t := by
  induction a generalizing before with
  | nil => rfl
  | cons b a ih => simp [occurrencesFrom, ih]

/-- A pattern that starts with one of several keywords has no occurrence in a text without them. -/
lemma occurrencesFrom_skips {ks : List Text}
    (hpattern : ∀ prev s v, pattern prev s = some v → ∃ k ∈ ks, keywordAt k prev s)
    {a before t : Text} (h : ∀ k ∈ ks, Skips k before.head? a t) :
    occurrencesFrom pattern before 0 (a ++ t) =
      occurrencesFrom pattern (a.reverse ++ before) 0 t := by
  induction a generalizing before with
  | nil => rfl
  | cons b a ih =>
    have hnone : pattern before.head? (b :: (a ++ t)) = none := by
      rw [Option.eq_none_iff_forall_ne_some]
      intro v hv
      obtain ⟨k, hk, hat⟩ := hpattern _ _ _ hv
      have hb := (h k hk).1
      simp [hat] at hb
    rw [List.cons_append, occurrencesFrom, hnone]
    have hrest : occurrencesFrom pattern (b :: before) 0 (a ++ t) =
        occurrencesFrom pattern (a.reverse ++ b :: before) 0 t := ih fun k hk => (h k hk).2
    simpa using hrest

/-- A pattern that starts with one of several keywords does not occur in a text that is free of
them. -/
lemma occurrences_eq_nil {ks : List Text}
    (hpattern : ∀ prev s v, pattern prev s = some v → ∃ k ∈ ks, keywordAt k prev s) {s : Text}
    (h : ∀ k ∈ ks, Free k s) : occurrences pattern s = [] := by
  have hskips : ∀ k ∈ ks, Skips k none s [] := fun k hk =>
    h k hk none [] rfl (by simp [apart])
  have hscan : occurrencesFrom pattern [] 0 (s ++ []) =
      occurrencesFrom pattern (s.reverse ++ []) 0 [] := occurrencesFrom_skips hpattern hskips
  rw [List.append_nil] at hscan
  exact hscan

/-- A pattern that is recognised has an occurrence. -/
lemma occurrencesFrom_found {a before t : Text} {v : α} (ha : a ≠ [])
    (h : pattern before.head? (a ++ t) = some (v, a.length)) :
    occurrencesFrom pattern before 0 (a ++ t) =
      ⟨before, v, a.length, a ++ t⟩ :: occurrencesFrom pattern (a.reverse ++ before) 0 t := by
  cases a with
  | nil => exact absurd rfl ha
  | cons b a =>
    simp only [List.cons_append] at h ⊢
    rw [occurrencesFrom, h]
    simp [occurrencesFrom_pass a (b :: before) t]

end Occurrences

/-! ### Headers -/

/-- A keyword stands where a word starts with it and a gap follows. -/
lemma keywordAt_of_atBoundary {k : Text} (hk : isKeyword k) {prev : Option UInt8} {s r : Text}
    (hat : atBoundary prev s) (hr : afterPrefix? k s = some r) (hgap : r.head?.any isGap) :
    keywordAt k prev s := by
  have hs : s = k ++ r := afterPrefix?_eq_some_iff.mp hr
  have hhead : s.head?.any isWord := by
    simp only [isKeyword, Bool.and_eq_true] at hk
    rw [hs]
    exact head?_append_any hk.1 r
  have hprev : prev.any isWord = false := by simpa [atBoundary, hhead] using hat
  exact keywordAt_iff.mpr ⟨hprev, r, hs, hgap⟩

/-- Where gaps are passed, there is one. -/
lemma head?_of_afterGaps? {r u : Text} (h : afterGaps? r = some u) : r.head?.any isGap := by
  by_contra hgap
  simp [afterGaps?, hgap] at h

/-- Where a name is found behind gaps, there is one. -/
lemma head?_of_nameAfterGaps? {start part : UInt8 → Bool} {r name : Text}
    (h : nameAfterGaps? start part r = some name) : r.head?.any isGap := by
  cases hr : afterGaps? r with
  | none => simp [nameAfterGaps?, hr] at h
  | some u => exact head?_of_afterGaps? hr

/-- Behind the first of several keywords there is a gap. -/
lemma head?_of_afterKeywords? {k k' : Text} {ks : List Text} {s rest : Text}
    (h : afterKeywords? (k :: k' :: ks) s = some rest) :
    ∃ r, afterPrefix? k s = some r ∧ r.head?.any isGap := by
  simp only [afterKeywords?, Option.bind_eq_some_iff] at h
  obtain ⟨u, ⟨r, hr, hu⟩, -⟩ := h
  exact ⟨r, hr, head?_of_afterGaps? hu⟩

/-- A header starts with its first keyword. -/
lemma keywordAt_of_header? {k : Text} (hk : isKeyword k) {ks : List Text}
    {start part : UInt8 → Bool} {prev : Option UInt8} {s : Text} {v : Text × ℕ}
    (h : header? (k :: ks) start part prev s = some v) : keywordAt k prev s := by
  unfold header? at h
  by_cases hat : atBoundary prev s
  · rw [if_pos hat, Option.bind_eq_some_iff] at h
    obtain ⟨rest, hrest, hname⟩ := h
    cases ks with
    | nil =>
      obtain ⟨name, hname, -⟩ := Option.map_eq_some_iff.mp hname
      exact keywordAt_of_atBoundary hk hat hrest (head?_of_nameAfterGaps? hname)
    | cons k' ks =>
      obtain ⟨r, hr, hgap⟩ := head?_of_afterKeywords? hrest
      exact keywordAt_of_atBoundary hk hat hr hgap
  · simp [hat] at h

section Header

variable {k : Text} {ks : List Text} {start part : UInt8 → Bool}

/-- The gaps that are passed, and what stands behind them. -/
lemma exists_of_afterGaps? {s t : Text} (h : afterGaps? s = some t) :
    ∃ g : Text, g.all isGap ∧ s = g ++ t ∧ skipGaps s = t := by
  have hgap := head?_of_afterGaps? h
  obtain rfl : skipGaps s = t := by simpa [afterGaps?, hgap] using h
  exact ⟨s.takeWhile isGap, List.all_takeWhile, List.takeWhile_append_dropWhile.symm, rfl⟩

/-- A space in front of what is no gap is passed. -/
lemma afterGaps?_space {t : Text} (ht : t.head?.any (!isGap ·)) :
    afterGaps? (ascii ' ' :: t) = some t := by
  have hgap : isGap (ascii ' ') := by decide
  cases t with
  | nil => simp at ht
  | cons b t =>
    have hb : isGap b = false := by simpa using ht
    simp [afterGaps?, skipGaps, hgap, hb]

/-- Written keywords start with the first one. -/
lemma head?_join_keywords (hne : ks ≠ []) (hks : ∀ k ∈ ks, isKeyword k) (t : Text) :
    (join " " ks ++ t).head?.any isWord := by
  cases ks with
  | nil => exact absurd rfl hne
  | cons k ks =>
    have hk := hks k (by simp)
    simp only [isKeyword, Bool.and_eq_true] at hk
    cases ks with
    | nil => simpa [join] using head?_append_any hk.1 t
    | cons k' ks =>
      rw [join_cons_cons, List.append_assoc, List.append_assoc]
      exact head?_append_any hk.1 _

/-- Written keywords are passed. -/
lemma afterKeywords?_join (hne : ks ≠ []) (hks : ∀ k ∈ ks, isKeyword k) (t : Text) :
    afterKeywords? ks (join " " ks ++ t) = some t := by
  induction ks with
  | nil => exact absurd rfl hne
  | cons k ks ih =>
    obtain ⟨-, hks'⟩ := List.forall_mem_cons.mp hks
    cases ks with
    | nil => simp [join, afterKeywords?]
    | cons k' ks =>
      have hhead : (join " " (k' :: ks) ++ t).head?.any (!isGap ·) := by
        have h := head?_join_keywords (by simp) hks' t
        cases hcase : join " " (k' :: ks) ++ t with
        | nil => simp [hcase] at h
        | cons b s => simp [isGap_of_isInk (isInk_of_isWord (b := b) (by simpa [hcase] using h))]
      have htext : join " " (k :: k' :: ks) ++ t =
          k ++ ascii ' ' :: (join " " (k' :: ks) ++ t) := by
        simp [join_cons_cons, utf8_space]
      have hlater := ih (by simp) hks'
      rw [htext]
      simp only [afterKeywords?, afterPrefix?_append, Option.bind_some, afterGaps?_space hhead,
        hlater]

/-- A written header is recognised. -/
lemma header?_join (hne : ks ≠ []) (hks : ∀ k ∈ ks, isKeyword k)
    (hstart : ∀ b, start b = true → isGap b = false) {prev : Option UInt8}
    (hprev : prev.any isWord = false) {b : UInt8} {name t : Text} (hb : start b)
    (hname : name.all part) (ht : t.head?.any part = false) :
    header? ks start part prev (join " " ks ++ ascii ' ' :: b :: (name ++ t)) =
      some (b :: name, (join " " ks ++ ascii ' ' :: b :: name).length) := by
  have hat : atBoundary prev (join " " ks ++ ascii ' ' :: b :: (name ++ t)) := by
    rw [atBoundary, hprev, head?_join_keywords hne hks]
    rfl
  have htake : (name ++ t).takeWhile part = name := by
    rw [List.takeWhile_append_of_pos (by simpa using hname)]
    cases t with
    | nil => simp
    | cons c t => simp_all
  have hgaps := afterGaps?_space (t := b :: (name ++ t)) (by simp [hstart b hb])
  obtain ⟨-, -, -, hskip⟩ := exists_of_afterGaps? hgaps
  rw [header?, if_pos hat, afterKeywords?_join hne hks, Option.bind_some, nameAfterGaps?, hgaps]
  simp only [hb, if_true, htake, Option.map_some, hskip, List.length_append, List.length_cons]
  congr 2
  omega

/-- A printed header with a single keyword is recognised. -/
lemma header?_append (hk : isKeyword k) (hstart : ∀ b, start b = true → isGap b = false)
    {prev : Option UInt8} (hprev : prev.any isWord = false) {b : UInt8} {name t : Text}
    (hb : start b) (hname : name.all part) (ht : t.head?.any part = false) :
    header? [k] start part prev (k ++ ascii ' ' :: b :: (name ++ t)) =
      some (b :: name, (k ++ ascii ' ' :: b :: name).length) := by
  have h := header?_join (List.cons_ne_nil k []) (by simpa using hk) hstart hprev hb hname ht
  simpa [join] using h

/-- A scan for headers finds a printed header between texts without its keyword. -/
lemma occurrencesFrom_header (hk : isKeyword k) (hstart : ∀ b, start b = true → isGap b = false)
    (hpart : ∀ b, isWord b = true → part b = true) {before lead name tail t : Text}
    (hbefore : before.head?.any isWord = false) (hlead : Free k lead)
    (hlast : lead.getLast?.any isWord = false) (hname : name.head?.any start)
    (hrest : name.tail.all part) (htail : Free k tail) (hhead : tail.head?.any (!part ·))
    (hend : tail.getLast?.any isWord = false) :
    occurrencesFrom (header? [k] start part) before 0
        (lead ++ k ++ ascii ' ' :: name ++ tail ++ t) =
      ⟨lead.reverse ++ before, name, (k ++ ascii ' ' :: name).length,
          k ++ ascii ' ' :: name ++ tail ++ t⟩ ::
        occurrencesFrom (header? [k] start part)
          ((lead ++ k ++ ascii ' ' :: name ++ tail).reverse ++ before) 0 t := by
  obtain ⟨c, tail', rfl⟩ : ∃ c tail', tail = c :: tail' := by
    cases tail with
    | nil => simp at hhead
    | cons c tail' => exact ⟨c, tail', rfl⟩
  obtain ⟨b, name, rfl⟩ : ∃ b name', name = b :: name' := by
    cases name with
    | nil => simp at hname
    | cons b name => exact ⟨b, name, rfl⟩
  have hc : part c = false := by simpa using hhead
  have hcword : isWord c = false := by
    by_contra h
    simp [hpart c (Bool.eq_true_of_not_eq_false h)] at hc
  have hpattern : ∀ prev s v, header? [k] start part prev s = some v →
      ∃ k' ∈ [k], keywordAt k' prev s :=
    fun _ _ _ h => ⟨k, by simp, keywordAt_of_header? hk h⟩
  have hbetween : (lead.reverse ++ before).head?.any isWord = false := by
    cases hl : lead.reverse with
    | nil => simpa using hbefore
    | cons d l => simpa [List.getLast?_eq_head?_reverse, hl] using hlast
  have hfound : header? [k] start part (lead.reverse ++ before).head?
      ((k ++ ascii ' ' :: b :: name) ++ (c :: tail' ++ t)) =
        some (b :: name, (k ++ ascii ' ' :: b :: name).length) := by
    have h := header?_append hk hstart hbetween (by simpa using hname) (by simpa using hrest)
      (show (c :: tail' ++ t).head?.any part = false by simpa using hc)
    simpa using h
  have hskipLead : Skips k before.head? lead (k ++ ascii ' ' :: b :: name ++ c :: tail' ++ t) :=
    hlead _ _ (by simp [apart, hbefore]) (by simp [apart, hlast])
  have hskipTail : Skips k ((k ++ ascii ' ' :: b :: name).reverse ++ (lead.reverse ++ before)).head?
      (c :: tail') t :=
    htail _ _ (by simp [apart, hcword]) (by simp [apart, hend])
  have h₁ := occurrencesFrom_skips hpattern (List.forall_mem_singleton.mpr hskipLead)
  have h₂ := occurrencesFrom_found (by simp) hfound
  have h₃ := occurrencesFrom_skips hpattern (List.forall_mem_singleton.mpr hskipTail)
  simp only [List.append_assoc, List.cons_append, List.reverse_append, List.reverse_cons,
    List.nil_append] at h₁ h₂ h₃ ⊢
  rw [h₁, h₂, h₃]

end Header

end DtoSchema.Declaration
