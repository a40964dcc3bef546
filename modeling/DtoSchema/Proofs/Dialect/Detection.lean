import DtoSchema.Dialect
import DtoSchema.Proofs.Declaration.Keyword
import DtoSchema.Proofs.Source.Lines

/-!
# Finding the dialect

Everything that speaks for the Kotlin dialect starts with one of a few keywords and a gap.  A text
without these keywords is found to be in the Java dialect (`detect_of_free`), and one that starts
with a data class in the Kotlin dialect (`detect_data_class`).

What speaks for a dialect also ends before the next closing brace.  So in a source whose lines end
with such braces it stands inside of one line, and the order of the lines plays no part in finding
the dialect (`dialect_detect_perm`).
-/

namespace DtoSchema

open Text Source Declaration

/-- A text without the keyword of enumerations declares none. -/
lemma enums_eq_nil {s : Text} (h : Free "enum" s) (dialect : Dialect) : dialect.enums s = [] := by
  have hnone : ∀ {ks : List Text} {start part : UInt8 → Bool},
      Declaration.enums (header? (utf8 "enum" :: ks) start part) s = [] := by
    intro ks start part
    have hpattern : ∀ prev s v, header? (utf8 "enum" :: ks) start part prev s = some v →
        ∃ k ∈ [utf8 "enum"], keywordAt k prev s :=
      fun _ _ _ hv => ⟨"enum", by simp, keywordAt_of_header? (by decide) hv⟩
    rw [Declaration.enums, occurrences_eq_nil hpattern (by simpa using h), List.filterMap_nil]
  cases dialect <;> exact hnone

namespace Dialect

/-- The keywords that speak for the Kotlin dialect. -/
def signalWords : List Text := ["enum", "data", "val", "var"]

/-- A keyword pair starts with its first keyword. -/
lemma keywordAt_of_keywordPairAt {k : Text} (hk : isKeyword k) {prev : Option UInt8} {s : Text}
    {v : Unit × ℕ} (h : keywordPairAt k prev s = some v) : keywordAt k prev s := by
  unfold keywordPairAt at h
  by_cases hat : atBoundary prev s
  · rw [if_pos hat, Option.bind_eq_some_iff] at h
    obtain ⟨rest, hrest, -⟩ := h
    obtain ⟨r, hr, hgap⟩ := head?_of_afterKeywords? hrest
    exact keywordAt_of_atBoundary hk hat hr hgap
  · simp [hat] at h

/-- A declaration of a value starts with one of its two keywords. -/
lemma keywordAt_of_valueDeclarationAt {prev : Option UInt8} {s : Text} {v : Unit × ℕ}
    (h : valueDeclarationAt prev s = some v) : keywordAt "val" prev s ∨ keywordAt "var" prev s := by
  unfold valueDeclarationAt at h
  by_cases hat : atBoundary prev s
  · rw [if_pos hat, Option.bind_eq_some_iff] at h
    obtain ⟨rest, hrest, hname⟩ := h
    obtain ⟨name, hname, -⟩ := Option.bind_eq_some_iff.mp hname
    have hgap := head?_of_nameAfterGaps? hname
    rcases Option.or_eq_some_iff.mp hrest with hval | ⟨-, hvar⟩
    · exact Or.inl (keywordAt_of_atBoundary (by decide) hat hval hgap)
    · exact Or.inr (keywordAt_of_atBoundary (by decide) hat hvar hgap)
  · simp [hat] at h

/-- A text without the keywords of the Kotlin dialect gives no hint. -/
lemma observe_of_free {s : Text} (h : ∀ k ∈ signalWords, Free k s) : observe s = [] := by
  have hpair : ∀ k ∈ signalWords, isKeyword k → occurrences (keywordPairAt k) s = [] := by
    intro k hk hkeyword
    have hpattern : ∀ prev s v, keywordPairAt k prev s = some v →
        ∃ k' ∈ [k], keywordAt k' prev s :=
      fun _ _ _ hv => ⟨k, by simp, keywordAt_of_keywordPairAt hkeyword hv⟩
    exact occurrences_eq_nil hpattern (by simpa using h k hk)
  have hvalue : occurrences valueDeclarationAt s = [] := by
    have hpattern : ∀ prev s v, valueDeclarationAt prev s = some v →
        ∃ k ∈ signalWords, keywordAt k prev s := by
      intro prev s v hv
      rcases keywordAt_of_valueDeclarationAt hv with hval | hvar
      · exact ⟨"val", by decide, hval⟩
      · exact ⟨"var", by decide, hvar⟩
    exact occurrences_eq_nil hpattern h
  simp [observe, signals, hpair "enum" (by decide) (by decide),
    hpair "data" (by decide) (by decide), hvalue]

/-- A text without the keywords of the Kotlin dialect is in the Java dialect. -/
lemma detect_of_free {s : Text} (h : ∀ k ∈ signalWords, Free k s) : (detect s).dialect = .java := by
  rw [detect, observe_of_free h]
  rfl

/-- A hint for the Kotlin dialect that counts decides. -/
lemma classify_of_mem {hints : List Hint} {hint : Hint} (hmem : hint ∈ hints)
    (hdialect : hint.dialect = .kotlin) (hscore : 0 < hint.score) :
    (classify hints).dialect = .kotlin := by
  have hne : ((hints.filter fun h => h.dialect == .kotlin && 0 < h.score).map (·.score)) ≠ [] := by
    have hfilter : hint ∈ hints.filter fun h => h.dialect == .kotlin && 0 < h.score :=
      List.mem_filter.mpr ⟨hmem, by simp [hdialect, hscore]⟩
    exact List.ne_nil_of_mem (List.mem_map_of_mem hfilter)
  simp only [classify, List.isEmpty_iff, hne, if_false]

/-- A text that starts with a data class is in the Kotlin dialect. -/
lemma detect_data_class (t : Text) : (detect ("data class " ++ t)).dialect = .kotlin := by
  have htext : utf8 "data class " ++ t = utf8 "data class" ++ ascii ' ' :: t := rfl
  have hpair : keywordPairAt "data" none (utf8 "data class" ++ ascii ' ' :: t) =
      some ((), (utf8 "data class").length) := by
    have hafter : afterKeywords? ["data", "class"] (utf8 "data class" ++ ascii ' ' :: t) =
        some (ascii ' ' :: t) := rfl
    have hat : atBoundary none (utf8 "data class" ++ ascii ' ' :: t) := rfl
    have hword : isWord (ascii ' ') = false := by decide
    rw [keywordPairAt, if_pos hat, hafter]
    simp [hword]
  obtain ⟨os, hfound⟩ : ∃ os, occurrences (keywordPairAt "data") (utf8 "data class " ++ t) =
      ⟨[], (), (utf8 "data class").length, utf8 "data class" ++ ascii ' ' :: t⟩ :: os := by
    rw [htext]
    exact ⟨_, occurrencesFrom_found (by decide) hpair⟩
  have hhint : (⟨.kotlin, 5, "kotlin keyword pair `data class`", 0⟩ : Hint) ∈
      observe (utf8 "data class " ++ t) := by
    simp [observe, signals, hfound, Occurrence.offset]
  exact classify_of_mem hhint rfl (by decide)

/-! ### What the dialect depends on -/

/-- A hint without its place. -/
def Hint.evidence (h : Hint) : Dialect × ℤ × Text := (h.dialect, h.score, h.reason)

/-- Texts in which the same constructs occur give the same hints, wherever the constructs are. -/
lemma evidence_observe_congr {s r : Text}
    (h : ∀ signal ∈ signals, occurrences signal.1 s = [] ↔ occurrences signal.1 r = []) :
    (observe s).map Hint.evidence = (observe r).map Hint.evidence := by
  unfold observe
  rw [List.map_filterMap, List.map_filterMap]
  refine List.filterMap_congr fun signal hmem => ?_
  have hsame := h signal hmem
  cases hs : occurrences signal.1 s <;> cases hr : occurrences signal.1 r <;>
    simp_all [Hint.evidence]

/-- The dialect is found by the hints without their places. -/
lemma dialect_detect_congr {s r : Text}
    (h : (observe s).map Hint.evidence = (observe r).map Hint.evidence) :
    (detect s).dialect = (detect r).dialect := by
  have hscores : ∀ hints : List Hint,
      ((hints.filter fun h => h.dialect == .kotlin && 0 < h.score).map (·.score)) =
        ((hints.map Hint.evidence).filter fun e => e.1 == .kotlin && 0 < e.2.1).map (·.2.1) := by
    intro hints
    rw [List.filter_map, List.map_map]
    rfl
  simp only [detect, classify, hscores, h]

/-! ### Patterns that end before a brace -/

section Brace

lemma afterPrefix?_brace {p : Text} (hp : ascii '\x7d' ∉ p) (s t : Text) :
    afterPrefix? p (s ++ ascii '\x7d' :: t) =
      (afterPrefix? p s).map (· ++ ascii '\x7d' :: t) := by
  induction p generalizing s with
  | nil => rfl
  | cons a p ih =>
    simp only [List.mem_cons, not_or] at hp
    cases s with
    | nil => simp [afterPrefix?, Ne.symm hp.1]
    | cons b s =>
      by_cases hab : a = b
      · simp [afterPrefix?, hab, ih hp.2]
      · simp [afterPrefix?, hab]

lemma skipGaps_brace (s t : Text) :
    skipGaps (s ++ ascii '\x7d' :: t) = skipGaps s ++ ascii '\x7d' :: t := by
  have hgap : isGap (ascii '\x7d') = false := by decide
  induction s with
  | nil => simp [skipGaps, hgap]
  | cons b s ih =>
    by_cases hb : isGap b
    · simpa [skipGaps, hb] using ih
    · simp [skipGaps, hb]

lemma head?_any_brace {p : UInt8 → Bool} (hp : p (ascii '\x7d') = false) (s t : Text) :
    (s ++ ascii '\x7d' :: t).head?.any p = s.head?.any p := by
  cases s <;> simp [hp]

lemma afterGaps?_brace (s t : Text) :
    afterGaps? (s ++ ascii '\x7d' :: t) = (afterGaps? s).map (· ++ ascii '\x7d' :: t) := by
  unfold afterGaps?
  rw [head?_any_brace (by decide), skipGaps_brace]
  split <;> rfl

lemma afterKeywords?_brace {ks : List Text} (hks : ∀ k ∈ ks, ascii '\x7d' ∉ k) (s t : Text) :
    afterKeywords? ks (s ++ ascii '\x7d' :: t) =
      (afterKeywords? ks s).map (· ++ ascii '\x7d' :: t) := by
  induction ks generalizing s with
  | nil => rfl
  | cons k ks ih =>
    obtain ⟨hk, hks⟩ := List.forall_mem_cons.mp hks
    cases ks with
    | nil => exact afterPrefix?_brace hk s t
    | cons k' ks =>
      simp only [afterKeywords?, afterPrefix?_brace hk]
      cases afterPrefix? k s with
      | none => rfl
      | some r =>
        simp only [Option.map_some, Option.bind_some, afterGaps?_brace]
        cases afterGaps? r with
        | none => rfl
        | some r => exact ih hks r

lemma nameAfterGaps?_brace {start part : UInt8 → Bool} (hstart : start (ascii '\x7d') = false)
    (hpart : part (ascii '\x7d') = false) (s t : Text) :
    nameAfterGaps? start part (s ++ ascii '\x7d' :: t) = nameAfterGaps? start part s := by
  unfold nameAfterGaps?
  rw [afterGaps?_brace]
  cases afterGaps? s with
  | none => rfl
  | some r =>
    cases r with
    | nil => simp [hstart]
    | cons b r =>
      have htake : (r ++ ascii '\x7d' :: t).takeWhile part = r.takeWhile part := by
        induction r with
        | nil => simp [hpart]
        | cons c r ih => simp [List.takeWhile_cons, ih]
      simp [htake]

/-- The pattern starts with a word, it regards of the byte before only whether it belongs to a word,
and it ends before the next closing brace. -/
structure IsConfined (pattern : Option UInt8 → Text → Option (Unit × ℕ)) : Prop where
  word : ∀ prev s v, pattern prev s = some v → s.head?.any isWord
  before : ∀ prev prev' s, prev.any isWord = prev'.any isWord → pattern prev s = pattern prev' s
  brace : ∀ prev s t, pattern prev (s ++ ascii '\x7d' :: t) = pattern prev s

lemma isConfined_keywordPairAt {k : Text} (hk : isKeyword k) : IsConfined (keywordPairAt k) where
  word prev s v h := by
    obtain ⟨-, r, rfl, -⟩ := keywordAt_iff.mp (keywordAt_of_keywordPairAt hk h)
    simp only [isKeyword, Bool.and_eq_true] at hk
    exact head?_append_any hk.1 r
  before prev prev' s h := by
    unfold keywordPairAt atBoundary
    rw [h]
  brace prev s t := by
    have hmem : ∀ w ∈ [k, utf8 "class"], ascii '\x7d' ∉ w := by
      simp only [isKeyword, Bool.and_eq_true] at hk
      have hword : ascii '\x7d' ∉ k := fun hmem =>
        absurd (List.all_eq_true.mp hk.2 _ hmem) (by decide)
      simpa [hword] using (by decide : ascii '\x7d' ∉ utf8 "class")
    unfold keywordPairAt atBoundary
    rw [head?_any_brace (by decide), afterKeywords?_brace hmem, Option.bind_map]
    congr 2
    funext r
    simp only [Function.comp_apply, head?_any_brace (show isWord (ascii '\x7d') = false by decide),
      List.length_append, Nat.add_sub_add_right]

/-- The name behind gaps is not longer than the text behind them. -/
lemma length_le_of_nameAfterGaps? {start part : UInt8 → Bool} {s name : Text}
    (h : nameAfterGaps? start part s = some name) : name.length ≤ (skipGaps s).length := by
  unfold nameAfterGaps? at h
  cases hgaps : afterGaps? s with
  | none => simp [hgaps] at h
  | some r =>
    obtain ⟨-, -, -, hskip⟩ := exists_of_afterGaps? hgaps
    rw [hgaps] at h
    cases r with
    | nil => simp at h
    | cons b r =>
      by_cases hb : start b
      · obtain rfl : b :: r.takeWhile part = name := by simpa [hb] using h
        rw [hskip]
        exact Nat.succ_le_succ (List.takeWhile_prefix part).length_le
      · simp [hb] at h

lemma isConfined_valueDeclarationAt : IsConfined valueDeclarationAt where
  word prev s v h := by
    rcases keywordAt_of_valueDeclarationAt h with hat | hat
    all_goals
      obtain ⟨-, r, rfl, -⟩ := keywordAt_iff.mp hat
      exact head?_append_any (by decide) r
  before prev prev' s h := by
    unfold valueDeclarationAt atBoundary
    rw [h]
  brace prev s t := by
    unfold valueDeclarationAt atBoundary
    rw [head?_any_brace (by decide), afterPrefix?_brace (by decide), afterPrefix?_brace (by decide),
      ← Option.map_or, Option.bind_map]
    congr 2
    funext r
    rw [Function.comp_apply, nameAfterGaps?_brace (by decide) (by decide)]
    cases hname : nameAfterGaps? isWord isWord r with
    | none => rfl
    | some name =>
      rw [Option.bind_some, Option.bind_some, skipGaps_brace,
        List.drop_append_of_le_length (length_le_of_nameAfterGaps? hname), skipGaps_brace,
        afterPrefix?_brace (by decide), Option.map_map]
      congr 1
      funext u
      simp only [Function.comp_apply, List.length_append, Nat.add_sub_add_right]

/-- What speaks for the Kotlin dialect ends before the next closing brace. -/
lemma isConfined_of_mem_signals {signal : (Option UInt8 → Text → Option (Unit × ℕ)) × ℤ × Text}
    (h : signal ∈ signals) : IsConfined signal.1 := by
  simp only [signals, List.mem_cons, List.not_mem_nil, or_false] at h
  rcases h with rfl | rfl | rfl
  · exact isConfined_keywordPairAt (by decide)
  · exact isConfined_keywordPairAt (by decide)
  · exact isConfined_valueDeclarationAt

end Brace

/-! ### Lines that end with a brace -/

section Lines

variable {pattern : Option UInt8 → Text → Option (Unit × ℕ)}

/-- A byte outside of words starts no occurrence. -/
lemma IsConfined.occurrencesFrom_cons (h : IsConfined pattern) {b : UInt8} (hb : isWord b = false)
    (before t : Text) :
    occurrencesFrom pattern before 0 (b :: t) = occurrencesFrom pattern (b :: before) 0 t := by
  have hnone : pattern before.head? (b :: t) = none := by
    rw [Option.eq_none_iff_forall_ne_some]
    intro v hv
    simpa [hb] using h.word _ _ _ hv
  rw [occurrencesFrom, hnone]

/-- A pattern occurs neither before nor behind a closing brace if it does not occur in the text that
the brace ends. -/
lemma IsConfined.occurrencesFrom_eq_nil_iff (h : IsConfined pattern) (a t : Text)
    {before before' : Text} (hbefore : before.head?.any isWord = before'.head?.any isWord) :
    occurrencesFrom pattern before 0 (a ++ ascii '\x7d' :: t) = [] ↔
      occurrencesFrom pattern before' 0 a = [] ∧
        occurrencesFrom pattern (ascii '\x7d' :: (a.reverse ++ before)) 0 t = [] := by
  induction a generalizing before before' with
  | nil =>
    rw [List.nil_append, h.occurrencesFrom_cons (by decide)]
    simp [occurrencesFrom]
  | cons b a ih =>
    -- the pattern sees neither what is behind the brace nor more than one byte before
    have hpattern : pattern before.head? (b :: (a ++ ascii '\x7d' :: t)) =
        pattern before'.head? (b :: a) := by
      rw [← List.cons_append, h.brace, h.before _ _ _ hbefore]
    rw [List.cons_append, occurrencesFrom, occurrencesFrom, hpattern]
    cases pattern before'.head? (b :: a) with
    | some v => simp
    | none =>
      have hsame : (b :: before).head?.any isWord = (b :: before').head?.any isWord := rfl
      simpa using ih hsame

/-- A pattern occurs in lines that end with a closing brace if it occurs in one of them. -/
lemma IsConfined.occurrences_unlines_eq_nil_iff (h : IsConfined pattern) (fronts : List Text) :
    occurrences pattern (unlines (fronts.map (· ++ [ascii '\x7d']))) = [] ↔
      ∀ a ∈ fronts, occurrences pattern a = [] := by
  suffices hall : ∀ before : Text, before.head?.any isWord = false →
      (occurrencesFrom pattern before 0 (unlines (fronts.map (· ++ [ascii '\x7d']))) = [] ↔
        ∀ a ∈ fronts, occurrences pattern a = []) from hall [] rfl
  have hline : isWord (ascii '\n') = false := by decide
  induction fronts with
  | nil => simp [unlines, occurrencesFrom]
  | cons a as ih =>
    intro before hbefore
    have hnone : before.head?.any isWord = ([] : Text).head?.any isWord := hbefore
    rw [List.map_cons, unlines_cons, List.append_assoc, List.singleton_append,
      h.occurrencesFrom_eq_nil_iff a _ hnone, h.occurrencesFrom_cons hline,
      ih _ (by simp [hline]), List.forall_mem_cons, occurrences]

/-- The order of lines that end with a closing brace plays no part in finding the dialect. -/
lemma dialect_detect_perm {as bs : List Text} (h : as.Perm bs) :
    (detect (unlines (as.map (· ++ [ascii '\x7d'])))).dialect =
      (detect (unlines (bs.map (· ++ [ascii '\x7d'])))).dialect := by
  refine dialect_detect_congr (evidence_observe_congr fun signal hmem => ?_)
  have hconfined := isConfined_of_mem_signals hmem
  rw [hconfined.occurrences_unlines_eq_nil_iff, hconfined.occurrences_unlines_eq_nil_iff]
  exact ⟨fun hall a ha => hall a (h.mem_iff.mpr ha), fun hall a ha => hall a (h.mem_iff.mp ha)⟩

end Lines

end Dialect

end DtoSchema
