import DtoSchema.Mark.Constraints
import DtoSchema.Proofs.Source.Nested
import DtoSchema.Schema.Literal

/-!
# Literals of regular expressions

A pattern is written between slashes.  A slash inside of it ends the literal unless it is escaped,
and it is escaped if the run of backslashes in front of it has an odd length.  So all that matters
about a text are the lengths of these runs, in front of its slashes and at its end; `slashRuns`
collects them.

Halving the pairs of backslashes halves every run and rounds up (`slashRuns_halveBackslashes`), and
writing a backslash in front of every slash makes each run longer by one, except for the run at the
end (`slashRuns_patternBytes`).  Hence a pattern is written as one literal exactly when all of its
runs are even once they have been halved three times (`isRegexLiteral_regexLiteral`).  A pattern
that escapes a slash itself is cut short, and one that ends in a backslash is left open
(`regexLiteral_unescaped`).
-/

namespace DtoSchema.Schema

open Text Source

/-! ### Runs of backslashes -/

/-- The length of the run of backslashes at the end of a text. -/
def trailingRun (s : Text) : ℕ := (s.reverse.takeWhile (· == ascii '\\')).length

/-- The lengths of the runs of backslashes in front of the slashes of a text and at its end, if a
run of length `n` stands in front of the text. -/
def slashRuns (n : ℕ) : Text → List ℕ × ℕ
  | [] => ([], n)
  | b :: s =>
    if b = ascii '\\' then slashRuns (n + 1) s
    else if b = ascii '/' then (n :: (slashRuns 0 s).1, (slashRuns 0 s).2)
    else slashRuns 0 s

lemma trailingRun_concat (s : Text) (b : UInt8) :
    trailingRun (s ++ [b]) = if b = ascii '\\' then trailingRun s + 1 else 0 := by
  by_cases hb : b = ascii '\\' <;> simp [trailingRun, hb]

lemma slashRuns_backslash (n : ℕ) (s : Text) :
    slashRuns n (ascii '\\' :: s) = slashRuns (n + 1) s := by
  rw [slashRuns, if_pos rfl]

lemma slashRuns_slash (n : ℕ) (s : Text) :
    slashRuns n (ascii '/' :: s) = (n :: (slashRuns 0 s).1, (slashRuns 0 s).2) := by
  rw [slashRuns, if_neg (by decide), if_pos rfl]

lemma slashRuns_other {b : UInt8} (hb : b ≠ ascii '\\') (hslash : b ≠ ascii '/') (n : ℕ)
    (s : Text) : slashRuns n (b :: s) = slashRuns 0 s := by
  rw [slashRuns, if_neg hb, if_neg hslash]

/-- The run at the end of a text is the last one of its runs. -/
lemma slashRuns_snd (w s : Text) : (slashRuns (trailingRun w) s).2 = trailingRun (w ++ s) := by
  induction s generalizing w with
  | nil => simp [slashRuns]
  | cons b s ih =>
    have hstep := ih (w ++ [b])
    rw [trailingRun_concat, List.append_assoc, List.singleton_append] at hstep
    rw [slashRuns, ← hstep]
    split_ifs <;> rfl

/-- The runs in front of slashes are those that end there. -/
lemma mem_slashRuns_fst {w s : Text} {n : ℕ} : n ∈ (slashRuns (trailingRun w) s).1 ↔
    ∃ u v, s = u ++ ascii '/' :: v ∧ trailingRun (w ++ u) = n := by
  induction s generalizing w with
  | nil => simp [slashRuns]
  | cons b s ih =>
    have hstep : n ∈ (slashRuns (if b = ascii '\\' then trailingRun w + 1 else 0) s).1 ↔
        ∃ u v, b :: s = b :: u ++ ascii '/' :: v ∧ trailingRun (w ++ b :: u) = n := by
      simpa [trailingRun_concat] using ih (w := w ++ [b])
    -- a slash is the first byte, or it stands behind the first byte
    have hsplit : (∃ u v, b :: s = u ++ ascii '/' :: v ∧ trailingRun (w ++ u) = n) ↔
        (b = ascii '/' ∧ trailingRun w = n) ∨
          ∃ u v, b :: s = b :: u ++ ascii '/' :: v ∧ trailingRun (w ++ b :: u) = n := by
      constructor
      · rintro ⟨u, v, hs, hn⟩
        cases u with
        | nil => exact Or.inl ⟨(List.cons.inj hs).1, by simpa using hn⟩
        | cons c u =>
          obtain ⟨rfl, -⟩ := List.cons.inj hs
          exact Or.inr ⟨u, v, hs, hn⟩
      · rintro (⟨rfl, hn⟩ | ⟨u, v, hs, hn⟩)
        · exact ⟨[], s, rfl, by simpa using hn⟩
        · exact ⟨b :: u, v, hs, hn⟩
    rw [hsplit, ← hstep]
    by_cases hb : b = ascii '\\'
    · subst hb
      have hne : ascii '\\' ≠ ascii '/' := by decide
      simp [slashRuns_backslash, hne]
    · by_cases hslash : b = ascii '/'
      · subst hslash
        simp [slashRuns_slash, hb, eq_comm]
      · simp [slashRuns_other hb hslash, hb, hslash]

/-! ### Halving and escaping -/

/-- Half the length of a run, rounded up. -/
def halfRun (n : ℕ) : ℕ := (n + 1) / 2

lemma halveBackslashes_pair (s : Text) :
    halveBackslashes (ascii '\\' :: ascii '\\' :: s) = ascii '\\' :: halveBackslashes s := rfl

lemma halveBackslashes_cons {b : UInt8} {s : Text}
    (h : b ≠ ascii '\\' ∨ s.head? ≠ some (ascii '\\')) :
    halveBackslashes (b :: s) = b :: halveBackslashes s := by
  have hpair : utf8 "\\\\" = [ascii '\\', ascii '\\'] := by decide
  have hprefix : (utf8 "\\\\").isPrefixOf (b :: s) = false := by
    rw [hpair]
    cases s with
    | nil => simp [List.isPrefixOf]
    | cons c s =>
      simp only [List.head?_cons, ne_eq, Option.some.injEq] at h
      simp only [List.isPrefixOf, Bool.and_true, Bool.and_eq_false_iff, beq_eq_false_iff_ne]
      exact h.imp Ne.symm Ne.symm
  rw [halveBackslashes, replaceAll, replaceFrom, hprefix]
  rfl

/-- Halving the pairs of backslashes halves every run.  What has been passed of a run is even, since
a single backslash is passed only at the end of one. -/
lemma slashRuns_halveBackslashes : ∀ (s : Text) (m : ℕ),
    slashRuns m (halveBackslashes s) =
      ((slashRuns (2 * m) s).1.map halfRun, halfRun (slashRuns (2 * m) s).2)
  | [], m => by
    have hhalf : halfRun (2 * m) = m := by unfold halfRun; omega
    simp [halveBackslashes, replaceAll, replaceFrom, slashRuns, hhalf]
  | b :: s, m => by
    have hhalf : halfRun (2 * m) = m := by unfold halfRun; omega
    have hodd : halfRun (2 * m + 1) = m + 1 := by unfold halfRun; omega
    by_cases hb : b = ascii '\\'
    · subst hb
      match s with
      | [] =>
        rw [halveBackslashes_cons (Or.inr (by simp))]
        simp [halveBackslashes, replaceAll, replaceFrom, slashRuns, hodd]
      | c :: s =>
        by_cases hc : c = ascii '\\'
        · subst hc
          rw [halveBackslashes_pair, slashRuns_backslash, slashRuns_halveBackslashes s (m + 1),
            slashRuns_backslash, slashRuns_backslash]
          rfl
        · rw [halveBackslashes_cons (Or.inr (by simpa using hc)),
            halveBackslashes_cons (Or.inl hc), slashRuns_backslash, slashRuns_backslash]
          by_cases hslash : c = ascii '/'
          · subst hslash
            simp [slashRuns_slash, slashRuns_halveBackslashes s 0, hodd]
          · simp [slashRuns_other hc hslash, slashRuns_halveBackslashes s 0]
    · rw [halveBackslashes_cons (Or.inl hb)]
      by_cases hslash : b = ascii '/'
      · subst hslash
        simp [slashRuns_slash, slashRuns_halveBackslashes s 0, hhalf]
      · simp [slashRuns_other hb hslash, slashRuns_halveBackslashes s 0]

/-- Escaping makes the run in front of every slash longer by one. -/
lemma slashRuns_patternBytes (n : ℕ) (s : Text) :
    slashRuns n (s.flatMap patternByte) =
      ((slashRuns n s).1.map (· + 1), (slashRuns n s).2) := by
  have hescape : ∀ {b c : UInt8}, patternByte b = [ascii '\\', c] → c ≠ ascii '\\' →
      c ≠ ascii '/' → ∀ (n : ℕ) (t : Text), slashRuns n (patternByte b ++ t) = slashRuns 0 t := by
    intro b c hb hc hslash n t
    rw [hb, List.cons_append, slashRuns_backslash, List.cons_append, slashRuns_other hc hslash,
      List.nil_append]
  induction s generalizing n with
  | nil => rfl
  | cons b s ih =>
    rw [List.flatMap_cons]
    by_cases hline : b = ascii '\r' ∨ b = ascii '\n' ∨ b = ascii '\t'
    · have hother : b ≠ ascii '\\' ∧ b ≠ ascii '/' := by
        rcases hline with rfl | rfl | rfl <;> decide
      rw [slashRuns_other hother.1 hother.2, ← ih 0]
      rcases hline with rfl | rfl | rfl
      · exact hescape (c := ascii 'r') rfl (by decide) (by decide) _ _
      · exact hescape (c := ascii 'n') rfl (by decide) (by decide) _ _
      · exact hescape (c := ascii 't') rfl (by decide) (by decide) _ _
    · simp only [not_or] at hline
      by_cases hslash : b = ascii '/'
      · subst hslash
        have hbytes : patternByte (ascii '/') = [ascii '\\', ascii '/'] := by decide
        rw [hbytes, List.cons_append, slashRuns_backslash, List.cons_append, slashRuns_slash,
          slashRuns_slash, List.nil_append, ih 0]
        rfl
      · have hbyte : patternByte b = [b] := by simp [patternByte, hline, hslash]
        rw [hbyte, List.singleton_append]
        by_cases hb : b = ascii '\\'
        · subst hb
          rw [slashRuns_backslash, slashRuns_backslash, ih]
        · rw [slashRuns_other hb hslash, slashRuns_other hb hslash, ih]

/-! ### Literals -/

/-- The text is one literal of a regular expression: it starts and ends with a slash, all slashes
between these two are escaped and these are not, and no line ends in it. -/
structure IsRegexLiteral (s : Text) : Prop where
  /-- The text starts with a slash. -/
  starts : s.head? = some (ascii '/')
  /-- Another slash is its last byte. -/
  ends : s.tail.getLast? = some (ascii '/')
  /-- A slash is escaped by an odd run of backslashes, unless it is the first or the last byte. -/
  escaped : ∀ u v, s = u ++ ascii '/' :: v → (Odd (trailingRun u) ↔ u ≠ [] ∧ v ≠ [])
  /-- There is no carriage return and no line feed. -/
  lines : ascii '\r' ∉ s ∧ ascii '\n' ∉ s

/-- What a pattern becomes between the slashes. -/
def patternContent (pattern : Text) : Text :=
  (halveBackslashes (halveBackslashes (halveBackslashes pattern))).flatMap patternByte

lemma regexLiteral_eq (pattern : Text) :
    regexLiteral pattern = ascii '/' :: (patternContent pattern ++ [ascii '/']) := by
  have hslash : utf8 "/" = [ascii '/'] := by decide
  simp [regexLiteral, patternContent, hslash]

/-- Line ends of a pattern are written as escapes. -/
lemma notMem_regexLiteral {b : UInt8} (hb : b = ascii '\r' ∨ b = ascii '\n') (pattern : Text) :
    b ∉ regexLiteral pattern := by
  have hbyte : ∀ c, b ∉ patternByte c := by
    intro c
    unfold patternByte
    split_ifs with hr hn ht hs
    · rcases hb with rfl | rfl <;> decide
    · rcases hb with rfl | rfl <;> decide
    · rcases hb with rfl | rfl <;> decide
    · rcases hb with rfl | rfl <;> decide
    · rcases hb with rfl | rfl
      · simpa using Ne.symm hr
      · simpa using Ne.symm hn
  have hslash : b ≠ ascii '/' := by rcases hb with rfl | rfl <;> decide
  simp [regexLiteral_eq, patternContent, hslash, hbyte]

/-- A content with these runs can stand between slashes: the run in front of each slash is odd, and
the one at the end is even. -/
def AreClosing (runs : List ℕ × ℕ) : Prop := (∀ n ∈ runs.1, Odd n) ∧ Even runs.2

/-- The runs of a content decide whether it makes a literal between slashes. -/
lemma isRegexLiteral_iff {s : Text} (hlines : ∀ b, b = ascii '\r' ∨ b = ascii '\n' →
    b ∉ ascii '/' :: (s ++ [ascii '/'])) :
    IsRegexLiteral (ascii '/' :: (s ++ [ascii '/'])) ↔ AreClosing (slashRuns 0 s) := by
  have hfirst : trailingRun [ascii '/'] = 0 := by decide
  have hlast : (slashRuns 0 s).2 = trailingRun (ascii '/' :: s) := by
    rw [← hfirst, slashRuns_snd, List.singleton_append]
  have hmem : ∀ n, n ∈ (slashRuns 0 s).1 ↔
      ∃ u v, s = u ++ ascii '/' :: v ∧ trailingRun (ascii '/' :: u) = n := by
    intro n
    rw [← hfirst]
    exact mem_slashRuns_fst
  constructor
  · intro h
    refine ⟨fun n hn => ?_, ?_⟩
    · obtain ⟨u, v, rfl, rfl⟩ := (hmem n).mp hn
      exact (h.escaped (ascii '/' :: u) (v ++ [ascii '/']) (by simp)).mpr (by simp)
    · rw [hlast, ← Nat.not_odd_iff_even]
      intro hodd
      exact ((h.escaped (ascii '/' :: s) [] (by simp)).mp hodd).2 rfl
  · rintro ⟨hodd, heven⟩
    refine ⟨rfl, by simp, fun u v hs => ?_, hlines _ (Or.inl rfl), hlines _ (Or.inr rfl)⟩
    cases u with
    | nil => simp [trailingRun]
    | cons c u =>
      obtain ⟨rfl, htail⟩ := List.cons.inj hs
      cases v using List.reverseRecOn with
      | nil =>
        obtain ⟨rfl, -⟩ := List.append_inj' htail rfl
        rw [hlast] at heven
        simpa using heven
      | append_singleton v d =>
        have hcut : s ++ [ascii '/'] = (u ++ ascii '/' :: v) ++ [d] := by simpa using htail
        obtain ⟨hcut, -⟩ := List.append_inj' hcut rfl
        have hrun := hodd _ ((hmem _).mpr ⟨u, v, hcut, rfl⟩)
        simpa using hrun

/-- Where a scan stands behind a run of backslashes in a literal. -/
def behindRun (n : ℕ) : Quoting := if Even n then .inside (ascii '/') else .escape (ascii '/')

lemma literal_cons_iff {q : Quoting} (hq : q ≠ .code) {b : UInt8} {t : Text} (ht : t ≠ []) :
    Literal q (b :: t) ↔ q.step b ≠ .code ∧ Literal (q.step b) t := by
  refine ⟨fun h => ?_, fun h => .more hq h.1 h.2⟩
  cases h with
  | close _ _ => exact absurd rfl ht
  | more _ hstep h => exact ⟨hstep, h⟩

/-- The runs of a content decide whether a scan leaves the literal at its last byte. -/
lemma literal_iff (n : ℕ) (s : Text) :
    Literal (behindRun n) (s ++ [ascii '/']) ↔ AreClosing (slashRuns n s) := by
  have hcode : ∀ n, behindRun n ≠ .code := by
    intro n
    unfold behindRun
    split_ifs <;> simp
  have hescape : ascii '/' ≠ ascii '\\' := by decide
  induction s generalizing n with
  | nil =>
    by_cases hn : Even n
    · have hstep : (behindRun n).step (ascii '/') = .code := by
        simp [behindRun, hn, Quoting.step, hescape]
      simpa [slashRuns, AreClosing, hn] using Literal.close (hcode n) hstep
    · have hstep : (behindRun n).step (ascii '/') ≠ .code := by simp [behindRun, hn, Quoting.step]
      have hopen : ¬ Literal (behindRun n) [ascii '/'] := by
        intro h
        cases h with
        | close _ h => exact hstep h
        | more _ _ h => cases h
      simpa [slashRuns, AreClosing, hn] using hopen
  | cons b s ih =>
    rw [List.cons_append, literal_cons_iff (hcode n) (by simp)]
    by_cases hb : b = ascii '\\'
    · subst hb
      have hstep : (behindRun n).step (ascii '\\') = behindRun (n + 1) := by
        by_cases hn : Even n
        · simp [behindRun, hn, Quoting.step, Nat.even_add_one]
        · simp [behindRun, hn, Quoting.step, Nat.even_add_one]
      rw [hstep, slashRuns_backslash]
      exact (and_iff_right (hcode _)).trans (ih _)
    · by_cases hslash : b = ascii '/'
      · subst hslash
        rw [slashRuns_slash]
        by_cases hn : Even n
        · -- the slash is not escaped and ends the literal too early
          have hstep : (behindRun n).step (ascii '/') = .code := by
            simp [behindRun, hn, Quoting.step, hescape]
          simp [hstep, AreClosing, hn]
        · have hstep : (behindRun n).step (ascii '/') = behindRun 0 := by
            simp [behindRun, hn, Quoting.step]
          have hodd := Nat.not_even_iff_odd.mp hn
          have hrest : AreClosing (n :: (slashRuns 0 s).1, (slashRuns 0 s).2) ↔
              AreClosing (slashRuns 0 s) := by simp [AreClosing, hodd]
          rw [hstep, hrest]
          exact (and_iff_right (hcode 0)).trans (ih 0)
      · have hstep : (behindRun n).step b = behindRun 0 := by
          by_cases hn : Even n <;> simp [behindRun, hn, Quoting.step, hb, hslash]
        rw [hstep, slashRuns_other hb hslash]
        exact (and_iff_right (hcode 0)).trans (ih 0)

/-! ### Patterns -/

/-- The runs of a pattern stay even when they are halved three times: those in front of its slashes
and the one at its end. -/
def HasEvenRuns (pattern : Text) : Prop :=
  ∀ u v, pattern = u ++ v → v = [] ∨ v.head? = some (ascii '/') → Even ((trailingRun u + 7) / 8)

lemma areClosing_patternContent (pattern : Text) :
    AreClosing (slashRuns 0 (patternContent pattern)) ↔ HasEvenRuns pattern := by
  have hthrice : ∀ n, halfRun (halfRun (halfRun n)) = (n + 7) / 8 := by
    intro n
    unfold halfRun
    omega
  have hruns : slashRuns 0 (patternContent pattern) =
      ((slashRuns 0 pattern).1.map fun n => (n + 7) / 8 + 1,
        ((slashRuns 0 pattern).2 + 7) / 8) := by
    simp only [patternContent, slashRuns_patternBytes, slashRuns_halveBackslashes, mul_zero,
      List.map_map, hthrice]
    simp [Function.comp_def, hthrice]
  have hlast : (slashRuns 0 pattern).2 = trailingRun pattern := slashRuns_snd [] pattern
  have hmem : ∀ n, n ∈ (slashRuns 0 pattern).1 ↔
      ∃ u v, pattern = u ++ ascii '/' :: v ∧ trailingRun u = n :=
    fun n => mem_slashRuns_fst (w := [])
  rw [hruns, AreClosing, hlast]
  constructor
  · rintro ⟨hodd, heven⟩ u v rfl (rfl | hv)
    · simpa using heven
    · obtain ⟨r, rfl⟩ := List.head?_eq_some_iff.mp hv
      have hrun := hodd _ (List.mem_map_of_mem ((hmem _).mpr ⟨u, r, rfl, rfl⟩))
      rwa [Nat.odd_add_one, Nat.not_odd_iff_even] at hrun
  · intro h
    refine ⟨fun n hn => ?_, h pattern [] (by simp) (Or.inl rfl)⟩
    obtain ⟨m, hm, rfl⟩ := List.mem_map.mp hn
    obtain ⟨u, v, rfl, rfl⟩ := (hmem m).mp hm
    rw [Nat.odd_add_one, Nat.not_odd_iff_even]
    exact h u (ascii '/' :: v) rfl (Or.inr rfl)

/-- What is made of a pattern always starts and ends with a slash and holds no line end.  It is one
literal exactly when the runs of backslashes in front of the slashes of the pattern and at its end
are even once they have been halved three times, rounding up.  Exactly then a scan that passes over
escaped bytes leaves the literal at its last byte, so that what follows is not a part of it. -/
theorem isRegexLiteral_regexLiteral (pattern : Text) :
    (regexLiteral pattern).head? = some (ascii '/') ∧
      (regexLiteral pattern).tail.getLast? = some (ascii '/') ∧
      ascii '\r' ∉ regexLiteral pattern ∧ ascii '\n' ∉ regexLiteral pattern ∧
      (IsRegexLiteral (regexLiteral pattern) ↔ HasEvenRuns pattern) ∧
      (Literal (.inside (ascii '/')) (regexLiteral pattern).tail ↔ HasEvenRuns pattern) := by
  have hlines : ∀ b, b = ascii '\r' ∨ b = ascii '\n' → b ∉ regexLiteral pattern :=
    fun b hb => notMem_regexLiteral hb pattern
  refine ⟨?_, ?_, hlines _ (Or.inl rfl), hlines _ (Or.inr rfl), ?_, ?_⟩
  · rw [regexLiteral_eq, List.head?_cons]
  · rw [regexLiteral_eq, List.tail_cons, List.getLast?_concat]
  · rw [regexLiteral_eq] at hlines ⊢
    rw [isRegexLiteral_iff hlines, areClosing_patternContent]
  · have hscan := literal_iff 0 (patternContent pattern)
    rw [regexLiteral_eq, List.tail_cons, ← areClosing_patternContent, ← hscan]
    rfl

/-- The pattern of an annotation that escapes a slash itself is cut short there, and one that ends
with an escaped backslash is left open. -/
theorem regexLiteral_unescaped :
    (Constraints.ofJava "@Pattern(regexp = \"a\\\\/b\")").pattern = utf8 "a\\\\/b" ∧
      regexLiteral "a\\\\/b" = utf8 "/a\\\\/b/" ∧ ¬ IsRegexLiteral "/a\\\\/b/" ∧
      (Constraints.ofJava "@Pattern(regexp = \"a\\\\\")").pattern = utf8 "a\\\\" ∧
      regexLiteral "a\\\\" = utf8 "/a\\/" ∧ ¬ IsRegexLiteral "/a\\/" := by
  refine ⟨by decide +kernel, by decide, fun h => ?_, by decide +kernel, by decide, fun h => ?_⟩
  · have hescaped := (h.escaped "/a\\\\" "b/" (by decide)).mpr (by decide)
    exact absurd hescaped (by decide)
  · have hescaped := (h.escaped "/a\\" [] (by decide)).mp (by decide)
    exact hescaped.2 rfl

end DtoSchema.Schema
