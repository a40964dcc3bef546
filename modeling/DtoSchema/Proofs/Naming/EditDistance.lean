import Mathlib
import DtoSchema.Naming.Suggestion

/-!
# The edit distance is the least number of edits

An edit inserts, deletes or substitutes one byte anywhere in a text (`Edit`), and `Edits n s t` says
that `n` edits turn `s` into `t`.  Between the edits and the table stands the plain recursion on
both texts, `distance`.  There are as many edits as it says (`edits_distance`), and one edit changes
the distance to any text by one at most (`Edit.distance_le`), so fewer edits do not do.

The recursion takes bytes off the front, and the table adds them at the end.  A row of the table
therefore holds the distances of reversed texts (`distancesFrom`); edits can be reversed, and so the
distance is the same (`distance_reverse`).
-/

namespace DtoSchema

namespace Naming

/-! ### Edits -/

/-- One text turns into the other when one byte is inserted, deleted or substituted. -/
inductive Edit : Text → Text → Prop where
  /-- A byte is inserted. -/
  | insertion (u v : Text) (y : UInt8) : Edit (u ++ v) (u ++ y :: v)
  /-- A byte is deleted. -/
  | deletion (u v : Text) (x : UInt8) : Edit (u ++ x :: v) (u ++ v)
  /-- A byte is put in the place of another one. -/
  | substitution (u v : Text) (x y : UInt8) : Edit (u ++ x :: v) (u ++ y :: v)

/-- One text turns into the other by a number of edits, one after the other. -/
inductive Edits : ℕ → Text → Text → Prop where
  /-- Without an edit a text stays. -/
  | none (s : Text) : Edits 0 s s
  /-- One more edit. -/
  | cons {n : ℕ} {s t u : Text} (first : Edit s t) (rest : Edits n t u) : Edits (n + 1) s u

variable {s t u : Text} {n m : ℕ}

lemma Edit.symm (h : Edit s t) : Edit t s := by
  cases h with
  | insertion u v y => exact .deletion u v y
  | deletion u v x => exact .insertion u v x
  | substitution u v x y => exact .substitution u v y x

lemma Edit.reverse (h : Edit s t) : Edit s.reverse t.reverse := by
  cases h with
  | insertion u v y => simpa using Edit.insertion v.reverse u.reverse y
  | deletion u v x => simpa using Edit.deletion v.reverse u.reverse x
  | substitution u v x y => simpa using Edit.substitution v.reverse u.reverse x y

/-- An edit takes place behind another byte just as well. -/
lemma Edit.behind (z : UInt8) (h : Edit s t) : Edit (z :: s) (z :: t) := by
  cases h with
  | insertion u v y => exact .insertion (z :: u) v y
  | deletion u v x => exact .deletion (z :: u) v x
  | substitution u v x y => exact .substitution (z :: u) v x y

namespace Edits

lemma concat (h : Edits n s t) (hlast : Edit t u) : Edits (n + 1) s u := by
  induction h with
  | none s => exact .cons hlast (.none _)
  | cons first _ ih => exact .cons first (ih hlast)

lemma symm (h : Edits n s t) : Edits n t s := by
  induction h with
  | none s => exact .none s
  | cons first _ ih => exact ih.concat first.symm

lemma reverse (h : Edits n s t) : Edits n s.reverse t.reverse := by
  induction h with
  | none s => exact .none _
  | cons first _ ih => exact .cons first.reverse ih

lemma behind (z : UInt8) (h : Edits n s t) : Edits n (z :: s) (z :: t) := by
  induction h with
  | none s => exact .none _
  | cons first _ ih => exact .cons (first.behind z) ih

/-- An edit changes the length by one at most. -/
lemma length_le (h : Edits n s t) : s.length ≤ t.length + n := by
  induction h with
  | none s => simp
  | cons first _ ih => cases first <;> simp at ih ⊢ <;> omega

lemma zero_iff : Edits 0 s t ↔ s = t := by
  constructor
  · rintro ⟨⟩
    rfl
  · rintro rfl
    exact .none s

end Edits

/-! ### The plain recursion -/

/-- The distance of two texts by recursion on both: the first byte of one of them is deleted or
inserted, or the first bytes are matched. -/
def distance : (s t : Text) → ℕ
  | [], t => t.length
  | s, [] => s.length
  | x :: s, y :: t =>
    min (min (distance s (y :: t) + 1) (distance (x :: s) t + 1))
      (distance s t + if x = y then 0 else 1)
  termination_by s t => s.length + t.length

@[simp]
lemma distance_nil_left (t : Text) : distance [] t = t.length := by rw [distance]

@[simp]
lemma distance_nil_right (s : Text) : distance s [] = s.length := by cases s <;> simp [distance]

lemma distance_cons_cons (x y : UInt8) (s t : Text) :
    distance (x :: s) (y :: t) =
      min (min (distance s (y :: t) + 1) (distance (x :: s) t + 1))
        (distance s t + if x = y then 0 else 1) := by
  rw [distance]

/-- There are as many edits as the recursion says. -/
lemma edits_distance (s t : Text) : Edits (distance s t) s t := by
  induction s, t using distance.induct with
  | case1 t =>
    rw [distance_nil_left]
    induction t with
    | nil => exact .none []
    | cons y t ih => exact .cons (.insertion [] [] y) (ih.behind y)
  | case2 s hs =>
    clear hs
    rw [distance_nil_right]
    induction s with
    | nil => exact .none []
    | cons x s ih => exact .cons (.deletion [] s x) ih
  | case3 x s y t hdelete hinsert hmatch =>
    rw [distance_cons_cons]
    rcases min_choice (min (distance s (y :: t) + 1) (distance (x :: s) t + 1))
      (distance s t + if x = y then 0 else 1) with hmin | hmin
    · rw [hmin]
      rcases min_choice (distance s (y :: t) + 1) (distance (x :: s) t + 1) with hleft | hleft
      · rw [hleft]
        exact .cons (.deletion [] s x) hdelete
      · rw [hleft]
        exact .cons (.insertion [] (x :: s) y) (hinsert.behind y)
    · rw [hmin]
      split
      · next heq => exact heq ▸ hmatch.behind x
      · exact .cons (.substitution [] s x y) (hmatch.behind y)

/-! ### No fewer edits -/

lemma distance_cons_left_le (x : UInt8) (s t : Text) : distance (x :: s) t ≤ distance s t + 1 := by
  cases t with
  | nil => simp
  | cons y t => rw [distance_cons_cons]; omega

lemma distance_cons_right_le (y : UInt8) (s t : Text) : distance s (y :: t) ≤ distance s t + 1 := by
  cases s with
  | nil => simp
  | cons x s => rw [distance_cons_cons]; omega

/-- A deletion at the front takes away one at most. -/
lemma distance_le_cons_left (x : UInt8) (s t : Text) : distance s t ≤ distance (x :: s) t + 1 := by
  induction t with
  | nil => simp; omega
  | cons y t ih =>
    have hright := distance_cons_right_le y s t
    rw [distance_cons_cons]
    omega

/-- A substitution at the front changes one at most. -/
lemma distance_cons_le_cons (x y : UInt8) (s t : Text) :
    distance (x :: s) t ≤ distance (y :: s) t + 1 := by
  induction t with
  | nil => simp
  | cons z t ih =>
    rw [distance_cons_cons, distance_cons_cons]
    split <;> omega

/-- What holds for two texts holds behind another byte. -/
lemma distance_behind_le (z : UInt8) (h : ∀ u, distance s u ≤ distance t u + 1) (u : Text) :
    distance (z :: s) u ≤ distance (z :: t) u + 1 := by
  induction u with
  | nil => simpa using h []
  | cons y u ih =>
    have hbehind := h (y :: u)
    have hmatch := h u
    rw [distance_cons_cons, distance_cons_cons]
    omega

/-- An edit changes the distance to any text by one at most. -/
lemma Edit.distance_le (h : Edit s t) (u : Text) : distance s u ≤ distance t u + 1 := by
  have hprefix : ∀ (p : Text) {v w : Text}, (∀ u, distance v u ≤ distance w u + 1) →
      ∀ u, distance (p ++ v) u ≤ distance (p ++ w) u + 1 := by
    intro p v w hvw
    induction p with
    | nil => exact hvw
    | cons z p ih => exact distance_behind_le z ih
  cases h with
  | insertion p v y => exact hprefix p (distance_le_cons_left y v) u
  | deletion p v x => exact hprefix p (distance_cons_left_le x v) u
  | substitution p v x y => exact hprefix p (distance_cons_le_cons x y v) u

/-- Edits change the distance to any text by their number at most. -/
lemma Edits.distance_le (h : Edits n s t) (u : Text) : distance s u ≤ n + distance t u := by
  induction h with
  | none s => simp
  | cons first _ ih =>
    have hfirst := first.distance_le u
    omega

lemma distance_self (s : Text) : distance s s = 0 := by
  induction s with
  | nil => simp
  | cons x s ih => simp [distance_cons_cons, ih]

/-- The recursion gives the least number of edits. -/
lemma isLeast_distance (s t : Text) : IsLeast {n | Edits n s t} (distance s t) := by
  refine ⟨edits_distance s t, fun n hn => ?_⟩
  simpa [distance_self] using hn.distance_le t

/-- The distance depends on the edits only. -/
lemma distance_eq_of_edits {s' t' : Text} (h : ∀ n, Edits n s t ↔ Edits n s' t') :
    distance s t = distance s' t' := by
  have hsame : {n | Edits n s t} = {n | Edits n s' t'} := Set.ext h
  exact (hsame ▸ isLeast_distance s t).unique (isLeast_distance s' t')

lemma distance_comm (s t : Text) : distance s t = distance t s :=
  distance_eq_of_edits fun _ => ⟨Edits.symm, Edits.symm⟩

lemma distance_reverse (s t : Text) : distance s.reverse t.reverse = distance s t :=
  distance_eq_of_edits fun _ => ⟨fun h => by simpa using h.reverse, Edits.reverse⟩

/-! ### The table -/

/-- The distances of a text to `p`, and to the texts that `p` becomes when the bytes of `s` are put
in front of it one by one. -/
def distancesFrom (p : Text) (u : Text) : (s : Text) → List ℕ
  | [] => [distance p u]
  | x :: s => distance p u :: distancesFrom (x :: p) u s

lemma headD_distancesFrom (p u s : Text) (d : ℕ) :
    (distancesFrom p u s).headD d = distance p u := by
  cases s <;> rfl

lemma getLastD_distancesFrom (p u s : Text) (d : ℕ) :
    (distancesFrom p u s).getLastD d = distance (s.reverse ++ p) u := by
  induction s generalizing p d with
  | nil => rfl
  | cons x s ih =>
    rw [distancesFrom, List.getLastD_cons, ih]
    simp

/-- The first row. -/
lemma distancesFrom_nil (p s : Text) :
    distancesFrom p [] s = List.range' p.length (s.length + 1) := by
  induction s generalizing p with
  | nil => simp [distancesFrom]
  | cons x s ih => simp [distancesFrom, ih, List.range'_succ]

/-- The cells behind a cell that is right are right. -/
lemma nextCells_distancesFrom (y : UInt8) (p u s : Text) :
    nextCells y (distance p (y :: u)) s (distancesFrom p u s) =
      (distancesFrom p (y :: u) s).tail := by
  induction s generalizing p with
  | nil => rfl
  | cons x s ih =>
    -- the cell above the new one is the first of what is left of the row before
    obtain ⟨row, hrow⟩ : ∃ row, distancesFrom (x :: p) u s = distance (x :: p) u :: row := by
      cases s <;> exact ⟨_, rfl⟩
    obtain ⟨next, hnext⟩ : ∃ next,
        distancesFrom (x :: p) (y :: u) s = distance (x :: p) (y :: u) :: next := by
      cases s <;> exact ⟨_, rfl⟩
    have hcell : min (min (distance (x :: p) u + 1) (distance p (y :: u) + 1))
        (distance p u + if x = y then 0 else 1) = distance (x :: p) (y :: u) := by
      rw [distance_cons_cons, min_comm (distance (x :: p) u + 1)]
    have hrest := ih (x :: p)
    rw [hrow, hnext] at hrest
    simp only [distancesFrom, hrow, nextCells, hcell, hrest, hnext, List.tail_cons]

/-- One more byte makes the next row. -/
lemma nextRow_distancesFrom (y : UInt8) (u s : Text) :
    nextRow s (distancesFrom [] u s) y = distancesFrom [] (y :: u) s := by
  have hfirst : (distancesFrom [] u s).headD 0 + 1 = distance [] (y :: u) := by
    rw [headD_distancesFrom, distance_nil_left, distance_nil_left, List.length_cons]
  rw [nextRow, hfirst, nextCells_distancesFrom]
  cases s <;> rfl

/-- The rows of the table hold the distances to the beginnings of `t`, which are reversed. -/
lemma foldl_nextRow (u s t : Text) :
    t.foldl (nextRow s) (distancesFrom [] u s) = distancesFrom [] (t.reverse ++ u) s := by
  induction t generalizing u with
  | nil => rfl
  | cons y t ih => simp [nextRow_distancesFrom, ih]

lemma tableDistance_eq_distance (s t : Text) : tableDistance s t = distance s t := by
  have hfirst : List.range (s.length + 1) = distancesFrom [] [] s := by
    rw [distancesFrom_nil, List.range_eq_range']
    rfl
  rw [tableDistance, hfirst, foldl_nextRow, getLastD_distancesFrom, List.append_nil,
    List.append_nil, distance_reverse]

/-- Whichever text the rows stand for, and where no table is made. -/
lemma editDistance_eq_distance (s t : Text) : editDistance s t = distance s t := by
  unfold editDistance
  split_ifs with heq hs ht hlonger
  · rw [heq, distance_self]
  · rw [hs, distance_nil_left]
  · rw [ht, distance_nil_right]
  · rw [tableDistance_eq_distance, distance_comm]
  · exact tableDistance_eq_distance s t

/-! ### Bounds -/

lemma distance_le_max (s t : Text) : distance s t ≤ max s.length t.length := by
  induction s, t using distance.induct with
  | case1 t => simp
  | case2 s _ => simp
  | case3 x s y t _ _ hmatch =>
    have hcost : (if x = y then 0 else 1) ≤ 1 := by split <;> omega
    rw [distance_cons_cons]
    simp only [List.length_cons]
    omega

end Naming

/-! ### Quotients -/

namespace Binary64

/-- Rounding does not go beyond a whole number. -/
lemma roundQuotient_le {num den bound : ℕ} (hden : 0 < den) (h : num ≤ den * bound) :
    roundQuotient num den ≤ bound := by
  have hquotient : num / den ≤ bound := Nat.div_le_of_le_mul h
  have hsplit := Nat.div_add_mod num den
  unfold roundQuotient
  by_cases hlt : num / den < bound
  · dsimp only
    split <;> omega
  · -- the quotient is the bound itself, and nothing is left to be rounded
    have hbound : num / den = bound := by omega
    have hrest : num % den = 0 := by
      rw [hbound] at hsplit
      omega
    simp [hrest, hbound, hden.ne]

/-- Rounding at a place does not go beyond a multiple of the place. -/
lemma roundQuotient_mul_le {num den place m : ℕ} (hden : 0 < den) (hm : 2 ^ place ∣ m)
    (h : num ≤ den * m) : roundQuotient num (den * 2 ^ place) * 2 ^ place ≤ m := by
  obtain ⟨c, rfl⟩ := hm
  rw [mul_comm (2 ^ place) c]
  refine Nat.mul_le_mul_right _ (roundQuotient_le (Nat.mul_pos hden (Nat.two_pow_pos _)) ?_)
  rwa [mul_assoc]

/-- Rounding at a place does not go below a multiple of the place. -/
lemma le_roundQuotient_mul {num den place m : ℕ} (hden : 0 < den) (hm : 2 ^ place ∣ m)
    (h : den * m ≤ num) : m ≤ roundQuotient num (den * 2 ^ place) * 2 ^ place := by
  obtain ⟨c, rfl⟩ := hm
  have hpos := Nat.mul_pos hden (Nat.two_pow_pos place)
  have hc : c ≤ num / (den * 2 ^ place) :=
    (Nat.le_div_iff_mul_le hpos).mpr (by rwa [mul_comm, mul_assoc])
  rw [mul_comm (2 ^ place) c]
  refine Nat.mul_le_mul_right _ (hc.trans ?_)
  unfold roundQuotient
  dsimp only
  split <;> omega

/-- A quotient that is at most one is rounded to a number that is at most one. -/
lemma nearest_le_one {num den : ℕ} (h : num ≤ den) : (nearest num den).units ≤ one.units := by
  rcases Nat.eq_zero_or_pos den with rfl | hden
  · obtain rfl : num = 0 := by omega
    simp [nearest, roundQuotient]
  obtain ⟨e, hone⟩ : ∃ e, one.units = 2 ^ e := ⟨1074, by decide +kernel⟩
  have hscaled : num * one.units ≤ den * 2 ^ e := hone ▸ Nat.mul_le_mul_right _ h
  have hplace : (num * one.units / den).log2 - 52 ≤ e := by
    have hlog : (num * one.units / den).log2 ≤ (2 ^ e).log2 := by
      rw [Nat.log2_eq_log_two, Nat.log2_eq_log_two]
      exact Nat.log_mono_right (Nat.div_le_of_le_mul hscaled)
    rw [Nat.log2_two_pow] at hlog
    omega
  rw [hone]
  exact roundQuotient_mul_le hden (pow_dvd_pow 2 hplace) hscaled

/-- A quotient of at least a power of two is rounded to a number of at least that power. -/
lemma two_pow_le_nearest {num den e : ℕ} (hden : 0 < den) (h : den * 2 ^ e ≤ num * one.units) :
    2 ^ e ≤ (nearest num den).units := by
  have hle : 2 ^ e ≤ num * one.units / den :=
    (Nat.le_div_iff_mul_le hden).mpr (by rwa [mul_comm])
  have hne : num * one.units / den ≠ 0 := (hle.trans_lt' (Nat.two_pow_pos e)).ne'
  calc 2 ^ e ≤ 2 ^ (num * one.units / den).log2 :=
        Nat.pow_le_pow_right Nat.two_pos ((Nat.le_log2 hne).mpr hle)
    _ ≤ (nearest num den).units := le_roundQuotient_mul hden (pow_dvd_pow 2 (Nat.sub_le _ _))
        ((Nat.mul_le_mul_left _ (Nat.log2_self_le hne)).trans (Nat.mul_div_le _ _))

/-- One minus a number of at least `2 ^ -53` is rounded to a number below one. -/
lemma complement_ne_one {x : Binary64} {e : ℕ} (hone : one.units = 2 ^ (e + 53))
    (h : 2 ^ e ≤ x.units) : x.complement ≠ one := by
  have hpos := Nat.two_pow_pos (e + 53)
  have hplace : (2 ^ (e + 53) - x.units).log2 - 52 ≤ e := by
    by_cases hzero : 2 ^ (e + 53) - x.units = 0
    · simp [hzero]
    · have hlt := (Nat.log2_lt hzero).mpr (Nat.sub_lt hpos ((Nat.two_pow_pos e).trans_le h))
      omega
  intro heq
  have hunits : (nearest (one.units - x.units) one.units).units = one.units := congrArg units heq
  simp only [nearest, hone, Nat.mul_div_cancel _ hpos, Nat.pow_eq] at hunits
  -- the number that precedes one is a multiple of the place
  have hle := roundQuotient_mul_le (m := 2 ^ (e + 53) - 2 ^ e) hpos
    (Nat.dvd_sub (pow_dvd_pow 2 (by omega)) (pow_dvd_pow 2 hplace))
    ((mul_comm _ _).trans_le (Nat.mul_le_mul_left _ (Nat.sub_le_sub_left h _)))
  have hprev := Nat.sub_lt hpos (Nat.two_pow_pos e)
  omega

lemma max_eq_one_iff {x y : Binary64} (hx : x.units ≤ one.units) (hy : y.units ≤ one.units) :
    x.max y = one ↔ x = one ∨ y = one := by
  have hiff : ∀ z : Binary64, z = one ↔ z.units = one.units := by
    intro z
    cases z
    cases one
    simp
  simp only [Binary64.max, hiff]
  split <;> omega

end Binary64

namespace Naming

/-- The similarity of texts is at most one. -/
lemma textSimilarity_le_one (s t : Text) : (textSimilarity s t).units ≤ Binary64.one.units := by
  unfold textSimilarity
  split
  · exact le_rfl
  · exact Binary64.nearest_le_one (Nat.sub_le _ _)

/-! ### The edit distance -/

/-- The edit distance of two texts is the least number of insertions, deletions and substitutions of
a byte that turn one into the other, and it is what the plain recursion gives.  It does not depend
on the order of the texts, is zero exactly for equal texts, satisfies the triangle inequality, and
lies between the difference of the lengths and the greater length.  Therefore its quotient by the
greater length is at most one, also when it is rounded, and a similarity is between zero and one. -/
theorem isLeast_editDistance (s t : Text) :
    IsLeast {n | Edits n s t} (editDistance s t) ∧
      editDistance s t = distance s t ∧
      editDistance s t = editDistance t s ∧
      (editDistance s t = 0 ↔ s = t) ∧
      (∀ u, editDistance s u ≤ editDistance s t + editDistance t u) ∧
      |(s.length : ℤ) - t.length| ≤ editDistance s t ∧
      editDistance s t ≤ max s.length t.length ∧
      0 ≤ (editDistance s t : ℚ) / (max s.length t.length : ℕ) ∧
      (editDistance s t : ℚ) / (max s.length t.length : ℕ) ≤ 1 ∧
      (Binary64.nearest (editDistance s t) (max s.length t.length)).units ≤ Binary64.one.units ∧
      (textSimilarity s t).units ≤ Binary64.one.units := by
  have hmax := distance_le_max s t
  have hedits := edits_distance s t
  have hlength : |(s.length : ℤ) - t.length| ≤ distance s t := by
    have hs := hedits.length_le
    have ht := hedits.symm.length_le
    rw [abs_le]
    omega
  have hzero : distance s t = 0 ↔ s = t := by
    refine ⟨fun h => Edits.zero_iff.mp (h ▸ hedits), ?_⟩
    rintro rfl
    exact distance_self s
  simp only [editDistance_eq_distance]
  refine ⟨isLeast_distance s t, trivial, distance_comm s t, hzero, hedits.distance_le, hlength,
    hmax, by positivity, ?_, Binary64.nearest_le_one hmax, textSimilarity_le_one s t⟩
  exact div_le_one_of_le₀ (by exact_mod_cast hmax) (by positivity)

end Naming

end DtoSchema
