import Mathlib
import DtoSchema.File.Output
import DtoSchema.Proofs.Text.Trimming

/-!
# Paths and their names

A path is read as the list of its names, and a clean path is written from such a list, so what is
shown here is how the two fit together: the names of a clean path are the simplified names of the
path that was cleaned (`names_clean`).  From this it follows that a file below a directory has a
path that ends in its name (`names_append`).  The name of an output file is such a name, whatever
input it is for (`isProper_outputName`).
-/

namespace DtoSchema.Path

open Text

/-! ### Names -/

/-- The text can be a name in a path. -/
structure IsName (n : Text) : Prop where
  /-- It is not empty. -/
  ne_nil : n ≠ []
  /-- It holds no slash. -/
  noSlash : slash ∉ n

/-- The text is the name of a file or directory and no detour. -/
structure IsProper (n : Text) : Prop extends IsName n where
  /-- It is not the name for the directory itself. -/
  ne_here : n ≠ "."
  /-- It is not the name for the parent. -/
  ne_parent : n ≠ ".."

/-- There is always a piece. -/
lemma exists_pieces (c : UInt8) (s : Text) : ∃ p ps, pieces c s = p :: ps := by
  cases s with
  | nil => exact ⟨[], [], rfl⟩
  | cons b s =>
    rw [pieces]
    split
    · exact ⟨[], _, rfl⟩
    · split
      · exact ⟨_, _, rfl⟩
      · exact ⟨_, _, rfl⟩

/-- Two texts with a separator between them have the pieces of both. -/
lemma pieces_append_separator (c : UInt8) (s t : Text) :
    pieces c (s ++ c :: t) = pieces c s ++ pieces c t := by
  induction s with
  | nil => simp [pieces]
  | cons b s ih =>
    rw [List.cons_append, pieces, pieces, ih]
    split
    · rfl
    · obtain ⟨p, ps, hp⟩ := exists_pieces c s
      simp [hp]

/-- A text without separators is one piece. -/
lemma pieces_eq_singleton {c : UInt8} {s : Text} (h : c ∉ s) : pieces c s = [s] := by
  induction s with
  | nil => rfl
  | cons b s ih =>
    obtain ⟨hb, hs⟩ : c ≠ b ∧ c ∉ s := by simpa using h
    rw [pieces, if_neg (Ne.symm hb), ih hs]

/-- No piece holds a separator. -/
lemma notMem_of_mem_pieces {c : UInt8} {s p : Text} (h : p ∈ pieces c s) : c ∉ p := by
  induction s generalizing p with
  | nil => simp_all [pieces]
  | cons b s ih =>
    obtain ⟨q, qs, hq⟩ := exists_pieces c s
    rw [pieces] at h
    split at h
    case isTrue =>
      rcases List.mem_cons.mp h with rfl | h
      · simp
      · exact ih h
    case isFalse hb =>
      rw [hq] at h
      rcases List.mem_cons.mp h with rfl | h
      · have hc := ih (hq ▸ List.mem_cons_self)
        simp [hc, Ne.symm hb]
      · exact ih (hq ▸ List.mem_cons_of_mem q h)

/-- The names of a path are names. -/
lemma isName_of_mem_names {p n : Text} (h : n ∈ names p) : IsName n := by
  obtain ⟨hmem, hne⟩ := List.mem_filter.mp h
  exact ⟨by simpa using hne, notMem_of_mem_pieces hmem⟩

/-- A name is its own name. -/
lemma names_eq_singleton {n : Text} (h : IsName n) : names n = [n] := by
  simp [names, pieces_eq_singleton h.noSlash, h.ne_nil]

/-- A path without names is empty or starts with a slash. -/
lemma isAbsolute_of_names_eq_nil {p : Text} (hne : p ≠ []) (h : names p = []) : isAbsolute p := by
  cases p with
  | nil => exact absurd rfl hne
  | cons b p =>
    by_cases hb : b = slash
    · simp [isAbsolute, hb]
    · obtain ⟨q, qs, hq⟩ := exists_pieces slash p
      simp [names, pieces, hb, hq] at h

lemma utf8_slash : utf8 "/" = [slash] := by decide

/-- Two paths with a slash between them have the names of both. -/
lemma names_append_slash (p q : Text) : names (p ++ "/" ++ q) = names p ++ names q := by
  rw [utf8_slash, List.append_assoc, List.singleton_append, names, pieces_append_separator,
    List.filter_append]
  rfl

/-- A slash in front adds no name. -/
lemma names_slash (p : Text) : names ("/" ++ p) = names p := by
  simp [utf8_slash, names, pieces]

/-- Names with slashes between them are the names of that path. -/
lemma names_join {ns : List Text} (h : ∀ n ∈ ns, IsName n) : names (join "/" ns) = ns := by
  induction ns with
  | nil => rfl
  | cons n ns ih =>
    obtain ⟨hn, hns⟩ := List.forall_mem_cons.mp h
    cases ns with
    | nil => simpa [join] using names_eq_singleton hn
    | cons m ms =>
      rw [join_cons_cons, names_append_slash, names_eq_singleton hn, ih hns]
      rfl

/-! ### Simplified names -/

/-- Simplified names are among the names, apart from the name for the parent. -/
lemma mem_or_eq_of_mem_simplify {absolute : Bool} {ns : List Text} {n : Text}
    (h : n ∈ simplify absolute ns) : n ∈ ns ∨ n = ".." := by
  suffices hfold : ∀ done, n ∈ ns.foldl (simplifyStep absolute) done →
      n ∈ done ∨ n ∈ ns ∨ n = ".." by
    simpa using hfold [] (List.mem_reverse.mp h)
  intro done hn
  clear h
  induction ns generalizing done with
  | nil => exact .inl hn
  | cons m ns ih =>
    rw [List.foldl_cons] at hn
    rcases ih _ hn with hdone | hns | hparent
    · have hstep : n ∈ done ∨ n = m ∨ n = ".." := by
        unfold simplifyStep at hdone
        grind
      rcases hstep with hstep | rfl | hstep
      · exact .inl hstep
      · exact .inr (.inl List.mem_cons_self)
      · exact .inr (.inr hstep)
    · exact .inr (.inl (List.mem_cons_of_mem m hns))
    · exact .inr (.inr hparent)

/-- Simplified names are names. -/
lemma isName_of_mem_simplify {absolute : Bool} {p n : Text}
    (h : n ∈ simplify absolute (names p)) : IsName n := by
  rcases mem_or_eq_of_mem_simplify h with hn | rfl
  · exact isName_of_mem_names hn
  · exact ⟨by decide, by decide⟩

/-- A proper name at the end stays. -/
lemma simplify_concat (absolute : Bool) (ns : List Text) {n : Text} (hn : IsProper n) :
    simplify absolute (ns ++ [n]) = simplify absolute ns ++ [n] := by
  have hstep : ∀ done, simplifyStep absolute done n = n :: done := by
    intro done
    simp [simplifyStep, hn.ne_here, hn.ne_parent]
  simp [simplify, List.foldl_append, hstep]

/-! ### Clean paths -/

/-- The names of a clean path are the simplified names. -/
lemma names_clean {p : Text} (h : isAbsolute p ∨ simplify (isAbsolute p) (names p) ≠ []) :
    names (clean p) = simplify (isAbsolute p) (names p) := by
  have hnames : ∀ n ∈ simplify (isAbsolute p) (names p), IsName n :=
    fun n hn => isName_of_mem_simplify hn
  unfold clean
  simp only
  split
  case isTrue => rw [names_slash, names_join hnames]
  case isFalse hrelative =>
    have hne : simplify (isAbsolute p) (names p) ≠ [] := h.resolve_left hrelative
    rw [if_neg (by simpa using hne), names_join hnames]

/-- The clean path of an absolute path is absolute. -/
lemma isAbsolute_clean {p : Text} (h : isAbsolute p) : isAbsolute (clean p) := by
  unfold clean
  simp only [h, if_true]
  simp [utf8_slash, isAbsolute]

/-- A path below an absolute directory is absolute. -/
lemma isAbsolute_append {dir : Text} (h : isAbsolute dir) (name : Text) :
    isAbsolute (append dir name) := by
  cases dir with
  | nil => cases h
  | cons b dir =>
    cases name with
    | nil => exact isAbsolute_clean h
    | cons c name => exact isAbsolute_clean h

/-- A clean path of some names ends as its last name does. -/
lemma getLast?_clean {p : Text} (h : simplify (isAbsolute p) (names p) ≠ []) :
    (clean p).getLast? ≠ some slash := by
  have hends : ∀ n ∈ simplify (isAbsolute p) (names p), n.getLast?.any (· != slash) := by
    intro n hn
    have hname := isName_of_mem_simplify hn
    cases n using List.reverseRecOn with
    | nil => exact absurd rfl hname.ne_nil
    | append_singleton n b =>
      have hb : b ≠ slash := by
        rintro rfl
        exact hname.noSlash (by simp)
      simpa using hb
  have hjoin : (join "/" (simplify (isAbsolute p) (names p))).getLast?.any (· != slash) :=
    getLast?_join h hends
  have hclean : (clean p).getLast?.any (· != slash) := by
    unfold clean
    simp only
    split
    · exact getLast?_append_any _ hjoin
    · rw [if_neg (by simpa using h)]
      exact hjoin
  intro hlast
  simp [hlast] at hclean

/-- The path of a file below a directory is the clean path of some names that end in its name. -/
lemma exists_append_eq_clean (dir : Text) {n : Text} (hn : IsProper n) :
    ∃ p, append dir n = clean p ∧ names p = names dir ++ [n] := by
  unfold append
  by_cases hdir : dir = []
  · subst hdir
    refine ⟨n, ?_, by rw [names_eq_singleton hn.toIsName]; rfl⟩
    simp [hn.ne_nil]
  · refine ⟨dir ++ "/" ++ n, by simp [hdir, hn.ne_nil], ?_⟩
    rw [names_append_slash, names_eq_singleton hn.toIsName]

/-- The path of a file below a directory ends in its name, and in no slash. -/
lemma names_append (dir : Text) {n : Text} (hn : IsProper n) :
    (∃ ns, names (append dir n) = ns ++ [n]) ∧ (append dir n).getLast? ≠ some slash ∧
      append dir n ≠ [] := by
  obtain ⟨p, hp, hnames⟩ := exists_append_eq_clean dir hn
  have hsimplify :
      simplify (isAbsolute p) (names p) = simplify (isAbsolute p) (names dir) ++ [n] := by
    rw [hnames, simplify_concat _ _ hn]
  have hne : simplify (isAbsolute p) (names p) ≠ [] := by simp [hsimplify]
  have hclean : names (clean p) = simplify (isAbsolute p) (names dir) ++ [n] :=
    (names_clean (.inr hne)).trans hsimplify
  rw [hp]
  refine ⟨⟨_, hclean⟩, getLast?_clean hne, fun hnil => ?_⟩
  rw [hnil] at hclean
  have hlength := congrArg List.length hclean
  simp [names, pieces] at hlength

/-! ### Names of output files -/

/-- The name of an output file is a proper name, if the path of its input has a name. -/
lemma isProper_outputName {p : Text} (h : names p ≠ []) : IsProper (outputName p) := by
  have hending : ∀ s : Text, slash ∉ s → IsProper (s ++ ".ts") := by
    intro s hs
    have hthree : (utf8 ".ts").length = 3 := by decide
    refine ⟨⟨?_, ?_⟩, ?_, ?_⟩
    · intro hnil
      have hlength := congrArg List.length hnil
      simp [hthree] at hlength
    · rw [List.mem_append, not_or]
      exact ⟨hs, by decide⟩
    · intro hhere
      have hlength := congrArg List.length hhere
      have hone : (utf8 ".").length = 1 := by decide
      simp [hthree, hone] at hlength
    · intro hparent
      have hlength := congrArg List.length hparent
      have htwo : (utf8 "..").length = 2 := by decide
      simp [hthree, htwo] at hlength
  unfold outputName
  split
  case isTrue => exact hending "schemas" (by decide)
  case isFalse hpath =>
    apply hending
    have hne : p ≠ [] := fun hnil => hpath (.inl hnil)
    obtain ⟨n, hn⟩ := Option.isSome_iff_exists.mp (List.getLast?_isSome.mpr h)
    have hbase : base p = n := by simp [base, hne, hn]
    have hname := isName_of_mem_names (List.mem_of_getLast? hn)
    rw [hbase]
    exact fun hslash => hname.noSlash (List.mem_of_mem_take hslash)

end DtoSchema.Path
