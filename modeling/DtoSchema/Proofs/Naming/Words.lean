import DtoSchema.Proofs.Naming.EditDistance
import DtoSchema.Proofs.Text.Characters

/-!
# Words and endings of a name

Cutting a name into words and joining them loses nothing but the separators (`flatten_words`), so a
normalized name is the name behind its last dot in small letters, without separators.

The ending of a data type is taken off the letters of a name, where words are no longer told apart.
`wholeWordStem` takes it off the words: the last one goes if it is an ending and not the only one.
The two agree unless the letters end in an ending that is not the last word (`EndsInsideWord`).
-/

namespace DtoSchema.Naming

open Text

/-! ### Words -/

lemma flatten_consWord (word : List Char) (ws : List (List Char)) :
    (consWord word ws).flatten = word ++ ws.flatten := by
  unfold consWord
  split
  · next h => rw [List.isEmpty_iff.mp h, List.nil_append]
  · rw [List.flatten_cons]

/-- Every character but the separators is in the words once, and in its place. -/
lemma flatten_wordsFrom (prev : Option Char) (begun cs : List Char) :
    (wordsFrom prev begun cs).flatten = begun ++ cs.filter (!isSeparator ·) := by
  induction cs generalizing prev begun with
  | nil => simp [wordsFrom, flatten_consWord]
  | cons c cs ih =>
    rw [wordsFrom]
    split_ifs with hsep
    · simp [flatten_consWord, ih, hsep]
    · simp [flatten_consWord, ih, hsep]
    · simp [ih, hsep]

lemma flatten_words (cs : List Char) : (words cs).flatten = cs.filter (!isSeparator ·) :=
  flatten_wordsFrom none [] cs

/-! ### Small letters -/

/-- Separators are left out of small letters as they are left out of the characters. -/
lemma filter_map_toLower (cs : List Char) :
    (cs.map Letter.toLower).filter (!isSeparator ·) =
      (cs.filter (!isSeparator ·)).map Letter.toLower := by
  have hsep : ∀ c, isSeparator (Letter.toLower c) = isSeparator c := by
    intro c
    have hmark : ∀ m ∈ Letter.marks, (Letter.toLower c == m) = (c == m) := fun m hm => by
      rw [Bool.eq_iff_iff, beq_iff_eq, beq_iff_eq, Letter.toLower_eq_mark_iff hm]
    unfold isSeparator
    rw [hmark _ (by decide), hmark _ (by decide), hmark _ (by decide), hmark _ (by decide)]
  rw [List.filter_map]
  simp only [Function.comp_def, hsep]

/-- The letters of words, in small letters. -/
def letters (ws : List (List Char)) : Text := ofChars (ws.flatten.map Letter.toLower)

lemma letters_append (ws ws' : List (List Char)) :
    letters (ws ++ ws') = letters ws ++ letters ws' := by
  simp [letters, ofChars]

lemma normalize_eq_letters (s : Text) : normalize s = letters (words (chars (unqualified s))) := by
  rw [normalize, filter_map_toLower, letters, flatten_words, List.filter_filter]
  simp only [Bool.and_self]

/-- The unqualified name holds no dot, and it is all of the name or stands behind a dot. -/
lemma unqualified_cases (s : Text) : ascii '.' ∉ unqualified s ∧
    (s = unqualified s ∨ ∃ qualifier, s = qualifier ++ ascii '.' :: unqualified s) := by
  by_cases hdot : ascii '.' ∈ s.reverse
  · obtain ⟨u, v, huv, hu⟩ := List.eq_append_cons_of_mem hdot
    have hname : unqualified s = u.reverse := by
      rw [unqualified, cutLast?, huv, cut?_append_cons hu]
      rfl
    rw [hname]
    refine ⟨by simpa using hu, Or.inr ⟨v.reverse, ?_⟩⟩
    simpa using congrArg List.reverse huv
  · have hname : unqualified s = s := by rw [unqualified, cutLast?, cut?_eq_none hdot]; rfl
    rw [hname]
    exact ⟨by simpa using hdot, Or.inl rfl⟩

lemma unqualified_eq_self {s : Text} (h : ascii '.' ∉ s) : unqualified s = s := by
  obtain heq | ⟨q, hq⟩ := (unqualified_cases s).2
  · exact heq.symm
  · exact absurd (hq ▸ by simp) h

/-- A normalized name consists of the characters behind the last dot of the name, without the
separators and in small letters: cutting the name into words and joining these loses, repeats and
moves no other character.  A normalized name is normalized already. -/
theorem normalize_keeps_letters (s : Text) :
    (∃ name, ascii '.' ∉ name ∧ (s = name ∨ ∃ qualifier, s = qualifier ++ ascii '.' :: name) ∧
      (words (chars name)).flatten = (chars name).filter (!isSeparator ·) ∧
      normalize s = ofChars (((chars name).filter (!isSeparator ·)).map Letter.toLower)) ∧
      normalize (normalize s) = normalize s := by
  obtain ⟨hdot, hname⟩ := unqualified_cases s
  have hletters := normalize_eq_letters s
  rw [letters, flatten_words] at hletters
  refine ⟨⟨_, hdot, hname, flatten_words _, hletters⟩, ?_⟩
  obtain ⟨kept, hkept⟩ : ∃ kept, kept = (chars (unqualified s)).filter (!isSeparator ·) := ⟨_, rfl⟩
  rw [← hkept] at hletters
  have hundotted : '.' ∉ kept.map Letter.toLower := by
    rw [List.mem_map]
    rintro ⟨c, hc, hlower⟩
    rw [Letter.toLower_eq_mark_iff (by decide)] at hlower
    rw [hkept, hlower] at hc
    exact dot_notMem_chars hdot (List.mem_of_mem_filter hc)
  have hunseparated : kept.filter (!isSeparator ·) = kept := by
    rw [hkept, List.filter_filter]
    simp only [Bool.and_self]
  rw [hletters, normalize_eq_letters, letters, flatten_words,
    unqualified_eq_self (dot_notMem_ofChars hundotted), chars_ofChars, filter_map_toLower,
    hunseparated, List.map_map]
  exact congrArg ofChars (List.map_congr_left fun c _ => Letter.toLower_toLower c)

/-! ### Endings -/

lemma nil_notMem_wordsFrom (prev : Option Char) (begun cs : List Char) :
    [] ∉ wordsFrom prev begun cs := by
  have hcons : ∀ {word ws}, [] ∉ ws → [] ∉ consWord word ws := by
    intro word ws h
    cases word <;> simpa [consWord] using h
  induction cs generalizing prev begun with
  | nil => exact hcons (by simp)
  | cons c cs ih =>
    rw [wordsFrom]
    split_ifs
    · exact hcons (ih _ _)
    · exact hcons (ih _ _)
    · exact ih _ _

/-- The last word of a name, in small letters. -/
def lastWord (s : Text) : Text := letters (words (chars (unqualified s))).getLast?.toList

/-- The letters of a name without its last word, if that is an ending and not the only word. -/
def wholeWordStem (s : Text) : Text :=
  let ws := words (chars (unqualified s))
  if 1 < ws.length ∧ lastWord s ∈ endings then letters ws.dropLast else letters ws

/-- The letters of the name end in an ending that is not the last word of the name. -/
def EndsInsideWord (s : Text) : Prop :=
  ∃ stem e, stem ≠ [] ∧ e ∈ endings ∧ normalize s = stem ++ e ∧ lastWord s ≠ e

variable {s : Text}

/-- An ending is taken off, whether it is a word or not; no two endings compete. -/
lemma normalizeStem_of_ending {stem e : Text} (hstem : stem ≠ []) (he : e ∈ endings)
    (h : normalize s = stem ++ e) : normalizeStem s = stem := by
  have hdistinct : ∀ e ∈ endings, ∀ e' ∈ endings, e <:+ e' → e = e' := by decide
  unfold normalizeStem
  simp only [h]
  split
  · next e' hfound =>
    have he' := List.mem_of_find?_eq_some hfound
    have hend := List.find?_some hfound
    simp only [endsWith, Bool.and_eq_true, List.isSuffixOf_iff_suffix] at hend
    obtain rfl : e' = e := by
      rcases List.suffix_or_suffix_of_suffix hend.1 (List.suffix_append stem e) with hsub | hsub
      · exact hdistinct e' he' e he hsub
      · exact (hdistinct e he e' he' hsub).symm
    simp
  · next hnone =>
    have hlength := List.length_pos_iff.mpr hstem
    simpa [endsWith, hlength] using List.find?_eq_none.mp hnone e he

lemma normalizeStem_eq_self (h : ∀ stem e, stem ≠ [] → e ∈ endings → normalize s ≠ stem ++ e) :
    normalizeStem s = normalize s := by
  unfold normalizeStem
  dsimp only
  split
  · next e hfound =>
    have hend := List.find?_some hfound
    simp only [endsWith, Bool.and_eq_true, List.isSuffixOf_iff_suffix, decide_eq_true_eq] at hend
    obtain ⟨⟨stem, hstem⟩, hlt⟩ := hend
    refine absurd hstem.symm (h stem e ?_ (List.mem_of_find?_eq_some hfound))
    rintro rfl
    simp [← hstem] at hlt
  · rfl

/-- The last word is taken off if it is an ending behind other letters, and nothing otherwise. -/
lemma wholeWordStem_cases (s : Text) :
    (∃ stem, stem ≠ [] ∧ lastWord s ∈ endings ∧ normalize s = stem ++ lastWord s ∧
      wholeWordStem s = stem) ∨
    wholeWordStem s = normalize s ∧
      ∀ stem, stem ≠ [] → lastWord s ∈ endings → normalize s ≠ stem ++ lastWord s := by
  have hwords : [] ∉ words (chars (unqualified s)) := nil_notMem_wordsFrom _ _ _
  rw [normalize_eq_letters, wholeWordStem]
  rcases List.eq_nil_or_concat' (words (chars (unqualified s))) with hnil | ⟨init, w, hws⟩
  · refine Or.inr ⟨by simp [hnil], fun stem hstem _ h => ?_⟩
    simp [hnil, letters, ofChars, hstem] at h
  · have hlast : lastWord s = letters [w] := by simp [lastWord, hws]
    rw [hws, List.dropLast_concat, letters_append, ← hlast]
    rcases init with _ | ⟨v, init⟩
    · refine Or.inr ⟨by simp [letters, ofChars], fun stem hstem _ h => ?_⟩
      simp [letters, ofChars, hstem] at h
    · have hstem : letters (v :: init) ≠ [] := by
        obtain ⟨c, v, rfl⟩ := List.exists_cons_of_ne_nil
          fun hv : v = [] => hwords (by simp [hws, hv])
        simp [letters, ofChars]
      by_cases hend : lastWord s ∈ endings
      · exact Or.inl ⟨_, hstem, hend, rfl, by simp [hend]⟩
      · exact Or.inr ⟨by simp [hend], fun _ _ h => absurd h hend⟩

lemma normalizeStem_eq_wholeWordStem_iff (s : Text) :
    normalizeStem s = wholeWordStem s ↔ ¬ EndsInsideWord s := by
  obtain ⟨stem, hstem, hend, hs, hwhole⟩ | ⟨hwhole, hnone⟩ := wholeWordStem_cases s
  · refine iff_of_true ((normalizeStem_of_ending hstem hend hs).trans hwhole.symm) ?_
    rintro ⟨stem', e, hstem', he, hs', hword⟩
    obtain rfl : stem = stem' := by
      rw [← normalizeStem_of_ending hstem hend hs, normalizeStem_of_ending hstem' he hs']
    exact hword (List.append_cancel_left (hs.symm.trans hs'))
  · rw [hwhole]
    constructor
    · rintro h ⟨stem, e, hstem, he, hs, -⟩
      rw [normalizeStem_of_ending hstem he hs, hs] at h
      obtain rfl : e = [] := by simpa using h
      exact absurd he (by decide)
    · refine fun h => normalizeStem_eq_self fun stem e hstem he hs => ?_
      obtain rfl : lastWord s = e := by
        by_contra hword
        exact h ⟨stem, e, hstem, he, hs, hword⟩
      exact hnone stem hstem he hs

/-- Of texts whose lengths are numbers of the format, only equal ones are perfectly similar. -/
lemma textSimilarity_eq_one_iff {s t : Text} (hs : s.length ≤ 2 ^ 53) (ht : t.length ≤ 2 ^ 53) :
    textSimilarity s t = .one ↔ s = t := by
  by_cases heq : s = t
  · subst heq
    have hzero : Binary64.nearest 0 (Nat.max s.length s.length) = ⟨0⟩ := by
      simp [Binary64.nearest, Binary64.roundQuotient]
    rw [textSimilarity, editDistance, if_pos rfl, hzero]
    refine iff_of_true ?_ rfl
    split
    · rfl
    · decide +kernel
  · obtain ⟨e, hone⟩ : ∃ e, Binary64.one.units = 2 ^ (e + 53) := ⟨1021, by decide +kernel⟩
    have hpos : 0 < distance s t :=
      Nat.pos_of_ne_zero fun hzero => heq (Edits.zero_iff.mp (hzero ▸ edits_distance s t))
    have hmax : 0 < Nat.max s.length t.length := hpos.trans_le (distance_le_max s t)
    rw [textSimilarity, if_neg fun hempty => heq (by simp_all), editDistance_eq_distance]
    refine iff_of_false (Binary64.complement_ne_one hone (Binary64.two_pow_le_nearest hmax ?_)) heq
    rw [hone, pow_add, mul_comm (2 ^ e), ← mul_assoc]
    exact Nat.mul_le_mul_right _ ((Nat.max_le.mpr ⟨hs, ht⟩).trans (Nat.le_mul_of_pos_left _ hpos))

lemma length_normalizeStem_le (s : Text) : (normalizeStem s).length ≤ (normalize s).length := by
  unfold normalizeStem
  dsimp only
  split
  · exact List.length_take_le' _ _
  · exact le_rfl

lemma similarity_eq_one_iff {s t : Text} (hs : (normalize s).length ≤ 2 ^ 53)
    (ht : (normalize t).length ≤ 2 ^ 53) : similarity s t = .one ↔
      normalize s = normalize t ∨ normalizeStem s = normalizeStem t := by
  rw [similarity, Binary64.max_eq_one_iff (textSimilarity_le_one _ _) (textSimilarity_le_one _ _),
    textSimilarity_eq_one_iff hs ht, textSimilarity_eq_one_iff
      ((length_normalizeStem_le s).trans hs) ((length_normalizeStem_le t).trans ht)]

/-- The ending of a data type is removed from the letters of a name: if they end in an ending and
have others before it, these others are the stem, and without such an ending the stem is the
normalized name.  The stem is what removing the last word gives, if that is an ending and not the
only word, exactly unless the letters end in an ending that is not the last word.  Where both stems
are those of whole words, so is the similarity.  Names are perfectly similar if they or their stems
are the same, and not otherwise; up to `2 ^ 53` letters no rounding hides a difference. -/
theorem normalizeStem_whole_words (s t : Text) :
    (∀ stem e, stem ≠ [] → e ∈ endings → normalize s = stem ++ e → normalizeStem s = stem) ∧
      ((∀ stem e, stem ≠ [] → e ∈ endings → normalize s ≠ stem ++ e) →
        normalizeStem s = normalize s) ∧
      (normalizeStem s = wholeWordStem s ↔ ¬ EndsInsideWord s) ∧
      (¬ EndsInsideWord s → ¬ EndsInsideWord t →
        similarity s t = (textSimilarity (normalize s) (normalize t)).max
          (textSimilarity (wholeWordStem s) (wholeWordStem t))) ∧
      ((normalize s).length ≤ 2 ^ 53 → (normalize t).length ≤ 2 ^ 53 → (similarity s t = .one ↔
        normalize s = normalize t ∨ normalizeStem s = normalizeStem t)) := by
  refine ⟨fun _ _ => normalizeStem_of_ending, normalizeStem_eq_self,
    normalizeStem_eq_wholeWordStem_iff s, fun hs ht => ?_, similarity_eq_one_iff⟩
  rw [similarity, (normalizeStem_eq_wholeWordStem_iff s).mpr hs,
    (normalizeStem_eq_wholeWordStem_iff t).mpr ht]

/-- A name of one word loses the letters of an ending, and is taken for the name that is left. -/
theorem normalizeStem_supermodel :
    words (chars "Supermodel") = ["Supermodel".toList] ∧
      normalizeStem "Supermodel" = utf8 "super" ∧
      wholeWordStem "Supermodel" = utf8 "supermodel" ∧
      similarity "Super" "Supermodel" = .one := by
  decide +kernel

end DtoSchema.Naming
