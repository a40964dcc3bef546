import Mathlib
import DtoSchema.Naming.Suggestion

/-!
# Ranked names do not depend on the order of enumeration

Candidates are ranked by their score, and by name where the scores are the same.  Candidates that
rank before one another are equal, so there is one ranked list only: every way to sort the
candidates, stable or not, gives `rank` (`eq_rank_of_pairwise`), and the names may be enumerated in
any order (`rank_eq_of_perm`, `suggest_eq_of_perm`).  The suggestions are the first three of the
eligible names in that order (`isSuggestion_suggest`).
-/

namespace DtoSchema

/-! ### The order of texts -/

/-- Texts are compared in the lexicographic order of their bytes. -/
lemma Text.compare_eq_compareLex : Text.compare = List.compareLex Ord.compare := by
  funext s t
  induction s generalizing t with
  | nil => cases t <;> rfl
  | cons a s ih =>
    cases t with
    | nil => rfl
    | cons b t => simp [Text.compare, ih, List.compareLex_cons_cons]

instance : Std.TransCmp Text.compare := Text.compare_eq_compareLex ▸ inferInstance

instance : Std.LawfulEqCmp Text.compare := Text.compare_eq_compareLex ▸ inferInstance

namespace Naming

/-! ### The order of candidates -/

/-- A candidate ranks before another one if its score is higher, or if the scores are the same and
its name is not behind the other one's. -/
lemma Candidate.ranksBefore_iff {a b : Candidate} :
    a.ranksBefore b ↔ b.score.units < a.score.units ∨
      a.score.units = b.score.units ∧ (Text.compare a.name b.name).isLE := by
  have hscore : a.score = b.score ↔ a.score.units = b.score.units := by
    cases a.score; cases b.score; simp
  unfold Candidate.ranksBefore
  split
  · next heq => simp [hscore.mp heq]
  · next hne => simp [mt hscore.mpr hne]

lemma Candidate.ranksBefore_trans (a b c : Candidate) (hab : a.ranksBefore b)
    (hbc : b.ranksBefore c) : a.ranksBefore c := by
  rw [ranksBefore_iff] at *
  rcases hab with hab | ⟨hab, hnames⟩
  · left; omega
  · rcases hbc with hbc | ⟨hbc, hnames'⟩
    · left; omega
    · exact Or.inr ⟨hab.trans hbc, Std.TransCmp.isLE_trans hnames hnames'⟩

lemma Candidate.ranksBefore_total (a b : Candidate) : a.ranksBefore b || b.ranksBefore a := by
  rw [Bool.or_eq_true, ranksBefore_iff, ranksBefore_iff]
  rcases Nat.lt_trichotomy a.score.units b.score.units with hlt | heq | hgt
  · exact Or.inr (Or.inl hlt)
  · have hswap : Text.compare b.name a.name = (Text.compare a.name b.name).swap :=
      Std.OrientedCmp.eq_swap
    have hnames : (Text.compare a.name b.name).isLE ∨ (Text.compare b.name a.name).isLE := by
      rw [hswap]
      cases Text.compare a.name b.name <;> simp
    exact hnames.imp (fun h => Or.inr ⟨heq, h⟩) fun h => Or.inr ⟨heq.symm, h⟩
  · exact Or.inl (Or.inl hgt)

/-- Candidates that rank before one another are equal: the name decides where the score does not. -/
lemma Candidate.eq_of_ranksBefore {a b : Candidate} (hab : a.ranksBefore b)
    (hba : b.ranksBefore a) : a = b := by
  rw [ranksBefore_iff] at hab hba
  have hscore : a.score.units = b.score.units := by omega
  have hname : a.name = b.name := by
    rcases hab with hlt | ⟨-, hle⟩
    · omega
    rcases hba with hlt | ⟨-, hge⟩
    · omega
    exact Std.LawfulEqCmp.eq_of_compare (Std.OrientedCmp.isLE_antisymm hle hge)
  obtain ⟨name, ⟨units⟩⟩ := a
  obtain ⟨name', ⟨units'⟩⟩ := b
  simp_all

/-! ### The ranked list -/

/-- The names other than `target`, each with its similarity to it. -/
def candidates (target : Text) (names : List Text) : List Candidate :=
  (names.filter (· != target)).map fun n => ⟨n, similarity target n⟩

lemma rank_perm (target : Text) (names : List Text) :
    (rank target names).Perm (candidates target names) :=
  List.mergeSort_perm _ _

lemma pairwise_rank (target : Text) (names : List Text) :
    (rank target names).Pairwise fun a b => a.ranksBefore b :=
  List.pairwise_mergeSort Candidate.ranksBefore_trans Candidate.ranksBefore_total _

/-- Whatever way the candidates are sorted, the result is the same. -/
lemma eq_rank_of_pairwise {target : Text} {names : List Text} {ranked : List Candidate}
    (hperm : ranked.Perm (candidates target names))
    (hsorted : ranked.Pairwise fun a b => a.ranksBefore b) : ranked = rank target names :=
  List.Perm.eq_of_pairwise (fun _ _ _ _ => Candidate.eq_of_ranksBefore) hsorted
    (pairwise_rank target names) (hperm.trans (rank_perm target names).symm)

/-- The order of the names plays no part in the ranking. -/
lemma rank_eq_of_perm {target : Text} {names names' : List Text} (h : names.Perm names') :
    rank target names = rank target names' := by
  refine eq_rank_of_pairwise ((rank_perm target names).trans ?_) (pairwise_rank target names)
  exact (h.filter _).map _

/-- The order of the names plays no part in the suggestions. -/
lemma suggest_eq_of_perm {target : Text} {names names' : List Text} (h : names.Perm names') :
    suggest target names = suggest target names' := by
  rw [suggest, rank_eq_of_perm h, suggest]

/-! ### The suggestions -/

/-- The name `n` is suggested before `m`: it is more similar to `target`, or as similar and not
behind `m` in the order of bytes. -/
def Precedes (target n m : Text) : Prop :=
  (similarity target m).units < (similarity target n).units ∨
    (similarity target n).units = (similarity target m).units ∧ (Text.compare n m).isLE

/-- The names that may be suggested: those other than `target` that are similar to it by three
quarters at least. -/
def eligible (target : Text) (names : List Text) : List Text :=
  names.filter fun n => n != target && 3 * Binary64.one.units ≤ 4 * (similarity target n).units

/-- The list `chosen` holds the three best of the eligible names, or all if there are fewer, the
best first. -/
structure IsSuggestion (target : Text) (names chosen : List Text) : Prop where
  /-- Three names are chosen, or all if there are fewer. -/
  length_eq : chosen.length = min 3 (eligible target names).length
  /-- The chosen names are in order, and those that are left come behind them. -/
  first : ∃ rest, (chosen ++ rest).Perm (eligible target names) ∧
    (chosen ++ rest).Pairwise (Precedes target)

/-- Three quarters is a number of the format. -/
lemma nearest_three_four : 4 * (Binary64.nearest 3 4).units = 3 * Binary64.one.units := by
  decide +kernel

/-- The candidates that are good enough have the eligible names. -/
lemma map_name_atLeast (target : Text) (names : List Text) :
    (atLeast 3 4 (candidates target names)).map Candidate.name = eligible target names := by
  have hquarter := nearest_three_four
  have hscore : ∀ n, decide ((Binary64.nearest 3 4).units ≤ (similarity target n).units) =
      decide (3 * Binary64.one.units ≤ 4 * (similarity target n).units) := by
    intro n
    rw [decide_eq_decide]
    omega
  simp only [atLeast, candidates, eligible, List.filter_map, List.map_map, List.filter_filter,
    Function.comp_def, List.map_id_fun', id_eq, hscore, Bool.and_comm]

/-- The suggestions are the best eligible names. -/
lemma isSuggestion_suggest (target : Text) (names : List Text) :
    IsSuggestion target names (suggest target names) := by
  let good := atLeast 3 4 (rank target names)
  have hperm : (good.map Candidate.name).Perm (eligible target names) := by
    rw [← map_name_atLeast]
    exact ((rank_perm target names).filter _).map _
  have hscore : ∀ c ∈ good, c.score = similarity target c.name := by
    intro c hc
    have hmem : c ∈ candidates target names :=
      (rank_perm target names).mem_iff.mp (List.mem_of_mem_filter hc)
    obtain ⟨n, -, rfl⟩ := List.mem_map.mp hmem
    rfl
  have hsorted : (good.map Candidate.name).Pairwise (Precedes target) := by
    rw [List.pairwise_map]
    refine ((pairwise_rank target names).filter _).imp_of_mem fun ha hb hab => ?_
    rw [Candidate.ranksBefore_iff, hscore _ ha, hscore _ hb] at hab
    exact hab
  have hsplit : suggest target names ++ (good.drop 3).map Candidate.name =
      good.map Candidate.name := by
    rw [suggest, ← List.map_append, List.take_append_drop]
  constructor
  · rw [← hperm.length_eq]
    simp [suggest, good]
  · exact ⟨(good.drop 3).map Candidate.name, hsplit ▸ hperm, hsplit ▸ hsorted⟩

end Naming

end DtoSchema
