import Mathlib
import DtoSchema.Proofs.Text.Trimming
import DtoSchema.Schema.Refinement

/-!
# The call that makes a schema optional

Making a schema optional appends a call and writes every run of such calls as one.  The dot that the
call starts with occurs nowhere else in it, so two occurrences of the call never overlap, and a text
is read in steps (`mergeOptional_induction`): a call before another one is dropped, and any other
byte stays.

What comes out ends in one call and not in two, and where the text held no run before, nothing else
has changed (`exists_makeOptional_eq`).  Calls that stood behind the text already are not told from
the one that is added (`makeOptional_append_call`).
-/

namespace DtoSchema.Schema

open Text

/-- What stands behind the dot of the call. -/
def callName : Text := "optional()"

lemma optionalCall_eq : optionalCall = ascii '.' :: callName := by decide

/-- The name of the call holds no dot. -/
lemma dot_notMem_callName : ascii '.' ∉ callName := by decide

/-- Two calls, one behind the other. -/
def optionalRun : Text := optionalCall ++ optionalCall

/-! ### One step -/

lemma mergeOptionalFrom_eq_drop (k : ℕ) (s : Text) :
    mergeOptionalFrom k s = mergeOptional (s.drop k) := by
  induction s generalizing k with
  | nil => simp [mergeOptional, mergeOptionalFrom]
  | cons b s ih =>
    cases k with
    | zero => rfl
    | succ k => rw [mergeOptionalFrom, ih, List.drop_succ_cons]

/-- A call before another one is dropped. -/
lemma mergeOptional_run {r : Text} (h : optionalCall <+: r) :
    mergeOptional (optionalCall ++ r) = mergeOptional r := by
  have hrun : (optionalCall ++ optionalCall).isPrefixOf (ascii '.' :: (callName ++ r)) := by
    rw [List.isPrefixOf_iff_prefix, ← List.cons_append, ← optionalCall_eq]
    exact (List.prefix_append_right_inj _).mpr h
  have hdrop : (callName ++ r).drop (optionalCall.length - 1) = r := List.drop_left' (by decide)
  calc mergeOptional (optionalCall ++ r) = mergeOptional (ascii '.' :: (callName ++ r)) := by
        rw [optionalCall_eq, List.cons_append]
    _ = mergeOptionalFrom (optionalCall.length - 1) (callName ++ r) := if_pos hrun
    _ = mergeOptional r := by rw [mergeOptionalFrom_eq_drop, hdrop]

/-- A byte that starts no run of calls stays. -/
lemma mergeOptional_cons {b : UInt8} {s : Text} (h : ¬ optionalRun <+: b :: s) :
    mergeOptional (b :: s) = b :: mergeOptional s :=
  if_neg (by rwa [List.isPrefixOf_iff_prefix])

/-- A text is read in steps: a call before another one, or a byte that starts no run of calls. -/
lemma mergeOptional_induction {P : Text → Prop} (nil : P [])
    (run : ∀ r, optionalCall <+: r → P r → P (optionalCall ++ r))
    (byte : ∀ b s, ¬ optionalRun <+: b :: s → P s → P (b :: s)) (s : Text) : P s := by
  induction hn : s.length using Nat.strong_induction_on generalizing s with
  | _ n ih =>
    cases s with
    | nil => exact nil
    | cons b s =>
      by_cases hrun : optionalRun <+: b :: s
      · obtain ⟨t, ht⟩ := hrun
        rw [optionalRun, List.append_assoc] at ht
        have hpos : 0 < optionalCall.length := by decide
        rw [← ht] at hn ⊢
        refine run _ (List.prefix_append _ _) (ih _ ?_ _ rfl)
        simp only [← hn, List.length_append]
        omega
      · exact byte b s hrun (ih s.length (by simp [← hn]) s rfl)

/-! ### What starts a text -/

/-- A run of calls starts with a dot. -/
lemma not_optionalRun_prefix_cons {b : UInt8} (hb : b ≠ ascii '.') (s : Text) :
    ¬ optionalRun <+: b :: s := by
  rw [optionalRun, optionalCall_eq, List.cons_append, List.cons_prefix_cons]
  exact fun h => hb h.1.symm

/-- Bytes other than a dot stay. -/
lemma mergeOptional_append {q : Text} (hq : ascii '.' ∉ q) (s : Text) :
    mergeOptional (q ++ s) = q ++ mergeOptional s := by
  induction q with
  | nil => rfl
  | cons b q ih =>
    simp only [List.mem_cons, not_or] at hq
    rw [List.cons_append, mergeOptional_cons (not_optionalRun_prefix_cons (Ne.symm hq.1) _),
      ih hq.2, List.cons_append]

/-- The first byte stays, also where a call is dropped. -/
lemma head?_mergeOptional (s : Text) : (mergeOptional s).head? = s.head? := by
  induction s using mergeOptional_induction with
  | nil => rfl
  | run r hr ih =>
    obtain ⟨t, rfl⟩ := hr
    rw [mergeOptional_run (List.prefix_append _ _), ih, optionalCall_eq]
    rfl
  | byte b s hrun ih => rw [mergeOptional_cons hrun]; rfl

/-- A text that starts with bytes other than a dot started with them before. -/
lemma prefix_of_prefix_mergeOptional {q : Text} (hq : ascii '.' ∉ q) {s : Text}
    (h : q <+: mergeOptional s) : q <+: s := by
  induction q generalizing s with
  | nil => exact List.nil_prefix
  | cons b q ih =>
    simp only [List.mem_cons, not_or] at hq
    obtain ⟨t, ht⟩ := h
    cases s with
    | nil => simp [mergeOptional, mergeOptionalFrom] at ht
    | cons c s =>
      have hhead : b = c := by simpa [← ht] using head?_mergeOptional (c :: s)
      subst hhead
      rw [mergeOptional_cons (not_optionalRun_prefix_cons (Ne.symm hq.1) _), List.cons_append,
        List.cons.injEq] at ht
      exact List.cons_prefix_cons.mpr ⟨rfl, ih hq.2 ⟨t, ht.2⟩⟩

/-- A text that starts with a call started with one before. -/
lemma optionalCall_prefix_of_mergeOptional {s : Text} (h : optionalCall <+: mergeOptional s) :
    optionalCall <+: s := by
  induction s using mergeOptional_induction with
  | nil => exact h
  | run r _ _ => exact List.prefix_append _ _
  | byte b s hrun _ =>
    rw [mergeOptional_cons hrun, optionalCall_eq, List.cons_prefix_cons] at h
    rw [optionalCall_eq, List.cons_prefix_cons]
    exact ⟨h.1, prefix_of_prefix_mergeOptional dot_notMem_callName h.2⟩

/-! ### Runs -/

/-- No run of calls is left. -/
lemma not_optionalRun_infix_mergeOptional (s : Text) : ¬ optionalRun <:+: mergeOptional s := by
  induction s using mergeOptional_induction with
  | nil => decide
  | run r hr ih => rwa [mergeOptional_run hr]
  | byte b s hrun ih =>
    rw [mergeOptional_cons hrun, List.infix_cons_iff]
    rintro (hstart | hlater)
    · -- The run would have stood there before: the name of its first call is read unchanged, and
      -- what starts with a call behind it started with one.
      rw [optionalRun, optionalCall_eq, List.cons_append, List.cons_prefix_cons] at hstart
      obtain ⟨hb, hname⟩ := hstart
      obtain ⟨t, rfl⟩ := prefix_of_prefix_mergeOptional dot_notMem_callName
        ((List.prefix_append _ _).trans hname)
      rw [mergeOptional_append dot_notMem_callName, List.prefix_append_right_inj,
        ← optionalCall_eq] at hname
      apply hrun
      rw [optionalRun, ← hb, ← List.cons_append, ← optionalCall_eq, List.prefix_append_right_inj]
      exact optionalCall_prefix_of_mergeOptional hname
    · exact ih hlater

/-- A text without runs stays as it is. -/
lemma mergeOptional_eq_self {s : Text} (h : ¬ optionalRun <:+: s) : mergeOptional s = s := by
  induction s with
  | nil => rfl
  | cons b s ih =>
    rw [List.infix_cons_iff, not_or] at h
    rw [mergeOptional_cons h.1, ih h.2]

/-- A call at the end stays. -/
lemma optionalCall_suffix_mergeOptional {s : Text} (h : optionalCall <:+ s) :
    optionalCall <:+ mergeOptional s := by
  induction s using mergeOptional_induction with
  | nil => exact h
  | run r hr ih =>
    rw [mergeOptional_run hr]
    exact ih (List.suffix_of_suffix_length_le h (List.suffix_append _ _) hr.length_le)
  | byte b s hrun ih =>
    rcases List.suffix_cons_iff.mp h with heq | hlater
    · rw [← heq, mergeOptional_eq_self (by decide)]
    · rw [mergeOptional_cons hrun]
      exact (ih hlater).trans (List.suffix_cons _ _)

/-- A call behind a text that ends in none forms no run with it: the last dot says where the last
call starts. -/
lemma not_optionalRun_infix_append {s : Text} (hrun : ¬ optionalRun <:+: s)
    (hend : ¬ optionalCall <:+ s) : ¬ optionalRun <:+: s ++ optionalCall := by
  rintro ⟨u, v, huv⟩
  rcases List.append_eq_append_iff.mp huv with ⟨a, hs, -⟩ | ⟨c, hs, hcall⟩
  · exact hrun ⟨u, a, hs.symm⟩
  · cases c with
    | nil =>
      apply hend
      rw [List.append_nil] at hs
      exact ⟨u ++ optionalCall, by rw [← hs, optionalRun, List.append_assoc]⟩
    | cons d c =>
      rw [optionalCall_eq, List.cons_append, List.cons.injEq] at hcall
      obtain ⟨rfl, hname⟩ := hcall
      have hdot : ∀ t : Text, ascii '.' ∉ t → t.reverse.all (· ≠ ascii '.') := by
        intro t ht
        simp only [List.all_reverse, List.all_eq_true, decide_eq_true_eq]
        exact fun b hb hdot => ht (hdot ▸ hb)
      have hc : ascii '.' ∉ c := fun hmem =>
        dot_notMem_callName (hname ▸ List.mem_append_left v hmem)
      have hrev := congrArg List.reverse hs
      rw [optionalRun] at hrev
      nth_rewrite 2 [optionalCall_eq] at hrev
      simp only [List.reverse_append, List.reverse_cons, List.append_assoc,
        List.singleton_append] at hrev
      have hlast := (run_append_inj (hdot _ dot_notMem_callName) (hdot _ hc) (by simp) (by simp)
        hrev).2
      rw [List.cons_append, List.cons.injEq, ← List.reverse_append, List.reverse_inj] at hlast
      exact hend ⟨u, hlast.2⟩

/-! ### Optional schemas -/

lemma endsWith_iff_suffix {s p : Text} : endsWith s p ↔ p <:+ s := by
  rw [endsWith, List.isSuffixOf_iff_suffix]

/-- An optional schema is a text that ends in no call, followed by one.  If the text that was made
optional held no run of calls, it was this text, with or without the call. -/
lemma exists_makeOptional_eq (s : Text) :
    ∃ body, makeOptional s = body ++ optionalCall ∧ ¬ optionalCall <:+ body ∧
      (¬ optionalRun <:+: s → s = body ∨ s = body ++ optionalCall) := by
  have hcalled : ∀ t, optionalCall <:+ t → ∃ body, mergeOptional t = body ++ optionalCall ∧
      ¬ optionalCall <:+ body ∧ (¬ optionalRun <:+: t → t = body ++ optionalCall) := by
    intro t ht
    obtain ⟨body, hbody⟩ := optionalCall_suffix_mergeOptional ht
    refine ⟨body, hbody.symm, ?_, fun hrun => by rw [hbody, mergeOptional_eq_self hrun]⟩
    rintro ⟨u, rfl⟩
    apply not_optionalRun_infix_mergeOptional t
    exact ⟨u, [], by rw [← hbody, optionalRun, List.append_nil, List.append_assoc]⟩
  unfold makeOptional
  by_cases hend : endsWith s optionalCall
  · rw [if_pos hend]
    obtain ⟨body, heq, hbody, hsame⟩ := hcalled s (endsWith_iff_suffix.mp hend)
    exact ⟨body, heq, hbody, fun hrun => Or.inr (hsame hrun)⟩
  · rw [if_neg hend]
    obtain ⟨body, heq, hbody, hsame⟩ := hcalled (s ++ optionalCall) (List.suffix_append _ _)
    refine ⟨body, heq, hbody, fun hrun => Or.inl ?_⟩
    have hnone := not_optionalRun_infix_append hrun (mt endsWith_iff_suffix.mpr hend)
    exact List.append_cancel_right (hsame hnone)

/-! ### Further calls -/

/-- A call behind a text that ends in one completes no run at its start: in a run, a call ends in the
middle and at the end only. -/
lemma not_optionalRun_prefix_append {s : Text} (hrun : ¬ optionalRun <+: s)
    (hend : optionalCall <:+ s) (hlonger : optionalCall.length < s.length) :
    ¬ optionalRun <+: s ++ optionalCall := by
  intro hstart
  have hshort : s <+: optionalRun :=
    (List.prefix_or_prefix_of_prefix hstart (List.prefix_append _ _)).resolve_left hrun
  have hends : ∀ n ≤ optionalRun.length, optionalCall <:+ optionalRun.take n →
      n = optionalCall.length ∨ n = optionalRun.length := by decide
  rw [List.prefix_iff_eq_take.mp hshort] at hend
  rcases hends _ hshort.length_le hend with hmiddle | hwhole
  · omega
  · exact hrun (hshort.eq_of_length hwhole ▸ List.prefix_rfl)

/-- A further call behind a text that ends in one changes nothing. -/
lemma mergeOptional_append_call {s : Text} (h : optionalCall <:+ s) :
    mergeOptional (s ++ optionalCall) = mergeOptional s := by
  induction s using mergeOptional_induction with
  | nil => exact absurd h (by decide)
  | run r hr ih =>
    have hend : optionalCall <:+ r :=
      List.suffix_of_suffix_length_le h (List.suffix_append _ _) hr.length_le
    rw [List.append_assoc, mergeOptional_run (hr.trans (List.prefix_append _ _)),
      mergeOptional_run hr, ih hend]
  | byte b s hrun ih =>
    rcases List.suffix_cons_iff.mp h with heq | hlater
    · rw [← heq]
      decide
    · have hstart := not_optionalRun_prefix_append hrun h (Nat.lt_succ_of_le hlater.length_le)
      rw [List.cons_append] at hstart ⊢
      rw [mergeOptional_cons hstart, ih hlater, mergeOptional_cons hrun]

/-- A call behind a text plays no part in making it optional. -/
lemma makeOptional_append_call (s : Text) : makeOptional (s ++ optionalCall) = makeOptional s := by
  have hcalled : endsWith (s ++ optionalCall) optionalCall :=
    endsWith_iff_suffix.mpr (List.suffix_append _ _)
  rw [makeOptional, makeOptional, if_pos hcalled]
  split
  · next hend => exact mergeOptional_append_call (endsWith_iff_suffix.mp hend)
  · rfl

/-- Whatever the text is, one call is added at most: the optional text ends in a call, holds no two
calls one behind the other, and stays when it is made optional again.  A text without the call gets
it at its end and is not changed otherwise, and calls that stand behind a text already play no part,
however many there are. -/
theorem makeOptional_marks_once (s : Text) :
    optionalCall <:+ makeOptional s ∧
      ¬ optionalCall ++ optionalCall <:+: makeOptional s ∧
      makeOptional (makeOptional s) = makeOptional s ∧
      (¬ optionalCall <:+: s → makeOptional s = s ++ optionalCall) ∧
      ∀ n, makeOptional (s ++ (List.replicate n optionalCall).flatten) = makeOptional s := by
  obtain ⟨body, hbody, hend, hsame⟩ := exists_makeOptional_eq s
  have hcalled : optionalCall <:+ makeOptional s := hbody ▸ List.suffix_append _ _
  have hrun : ¬ optionalRun <:+: makeOptional s := not_optionalRun_infix_mergeOptional _
  refine ⟨hcalled, hrun, ?_, fun hnone => ?_, fun n => ?_⟩
  · rw [makeOptional, if_pos (endsWith_iff_suffix.mpr hcalled), mergeOptional_eq_self hrun]
  · have hcall : optionalCall <:+: optionalRun := ⟨[], optionalCall, rfl⟩
    rcases hsame fun h => hnone (hcall.trans h) with rfl | rfl
    · exact hbody
    · exact absurd (List.suffix_append body optionalCall).isInfix hnone
  · induction n with
    | zero => simp
    | succ n ih =>
      rw [List.replicate_succ', List.flatten_append, List.flatten_singleton, ← List.append_assoc,
        makeOptional_append_call, ih]

end DtoSchema.Schema
