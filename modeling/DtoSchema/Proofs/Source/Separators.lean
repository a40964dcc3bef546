import DtoSchema.Proofs.Source.Parts
import DtoSchema.Proofs.Source.Name

/-!
# Cutting at separators

A text is cut at every separator that stands outside of literals and brackets.  A scan is there at
the place where it started, so each part is read as if it stood alone.  `Cutting sep s parts` says
how a text is put together from its parts, one cut after the other; the parts that the scan finds are
put together in that way (`cutting_segments`), and everything about them is an induction over the
cuts.
-/

namespace DtoSchema.Source

open Text

variable {sep : UInt8} {s t : Text} {parts l r : List Text}

/-! ### Putting parts together -/

/-- The text is made of these parts, none of which holds a separator at its top level, with
separators between them that stand at the top level of the text. -/
inductive Cutting (sep : UInt8) : Text → List Text → Prop
  /-- A text that is not cut is a part. -/
  | last {s : Text} : Uncut .all (· == sep) {} s → Cutting sep s [s]
  /-- A part that leads back to the top level stands in front of a separator and the other parts. -/
  | cut {part s : Text} {parts : List Text} : Uncut .all (· == sep) {} part →
      Place.after .all {} part = {} → Brackets.all.isPlain sep → Cutting sep s parts →
      Cutting sep (part ++ sep :: s) (part :: parts)

/-- A text is cut nowhere, or there is a first separator at which it is cut. -/
lemma uncut_or_exists_cut (sep : UInt8) (p : Place) (s : Text) :
    Uncut .all (· == sep) p s ∨ ∃ u v, s = u ++ sep :: v ∧ Uncut .all (· == sep) p u ∧
      (p.after .all u).cutsAt .all (· == sep) sep := by
  induction s generalizing p with
  | nil =>
    left
    intro u b v heq
    simp at heq
  | cons b s ih =>
    have hcons : ∀ {u : Text}, p.cutsAt .all (· == sep) b = false →
        Uncut .all (· == sep) (p.step .all b) u → Uncut .all (· == sep) p (b :: u) := by
      intro u hcut hu
      have hfirst : Uncut .all (· == sep) p [b] := by
        rw [uncut_iff_segments, segments_cons hcut]
        rfl
      exact hfirst.append hu
    cases hcut : p.cutsAt .all (· == sep) b with
    | true =>
      obtain rfl : b = sep := by
        simp only [Place.cutsAt, Bool.and_eq_true, beq_iff_eq] at hcut
        exact hcut.2
      exact Or.inr ⟨[], s, rfl, by simp [uncut_iff_segments, segments], hcut⟩
    | false =>
      rcases ih (p.step .all b) with huncut | ⟨u, v, rfl, hu, hv⟩
      · exact Or.inl (hcons hcut huncut)
      · exact Or.inr ⟨b :: u, v, rfl, hcons hcut hu, hv⟩

/-- The place outside of all literals and brackets is the one where a scan starts. -/
lemma Place.isTop_iff {p : Place} : p.isTop ↔ p = {} := by
  cases p
  simp [Place.isTop]

/-- A text is cut at the top level only, and at a byte that is neither quote nor bracket. -/
lemma Place.eq_of_cutsAt {brackets : Brackets} {sep : UInt8 → Bool} {p : Place} {b : UInt8}
    (h : p.cutsAt brackets sep b) : p = {} ∧ brackets.isPlain b := by
  rw [Place.cutsAt, Bool.and_eq_true, Bool.and_eq_true, Place.isTop_iff] at h
  exact h.1

/-- A text is made of the parts between its top level separators. -/
lemma cutting_segments (sep : UInt8) (s : Text) : Cutting sep s (segments .all (· == sep) {} s) := by
  induction hn : s.length using Nat.strong_induction_on generalizing s with
  | _ n ih =>
    rcases uncut_or_exists_cut sep {} s with huncut | ⟨u, v, rfl, hu, hcut⟩
    · rw [uncut_iff_segments.mp huncut]
      exact .last huncut
    · obtain ⟨hafter, hplain⟩ := Place.eq_of_cutsAt hcut
      have hsegments : segments .all (· == sep) {} (u ++ sep :: v) =
          u :: segments .all (· == sep) {} v := by
        rw [segments_append_cut hafter hplain (by simp), uncut_iff_segments.mp hu,
          List.singleton_append]
      rw [hsegments]
      refine .cut hu hafter hplain (ih v.length ?_ v rfl)
      rw [← hn, List.length_append, List.length_cons]
      omega

namespace Cutting

/-- A text is put together from its parts in one way. -/
lemma segments_eq (h : Cutting sep s parts) : segments .all (· == sep) {} s = parts := by
  induction h with
  | last huncut => exact uncut_iff_segments.mp huncut
  | cut huncut hafter hplain _ ih =>
    rw [segments_append_cut hafter hplain (by simp), uncut_iff_segments.mp huncut, ih,
      List.singleton_append]

lemma ne_nil (h : Cutting sep s parts) : parts ≠ [] := by
  cases h <;> simp

/-- The parts with separators between them are the text. -/
lemma join_eq (h : Cutting sep s parts) : join [sep] parts = s := by
  induction h with
  | last => simp [join]
  | @cut part s parts _ _ _ hrest ih =>
    obtain ⟨next, parts, rfl⟩ := List.exists_cons_of_ne_nil hrest.ne_nil
    rw [join_cons_cons, ih, List.append_assoc, List.singleton_append]

lemma uncut (h : Cutting sep s parts) : ∀ part ∈ parts, Uncut .all (· == sep) {} part := by
  induction h with
  | last huncut => exact List.forall_mem_singleton.mpr huncut
  | cut huncut _ _ _ ih => exact List.forall_mem_cons.mpr ⟨huncut, ih⟩

/-- Between any two parts there is a separator at the top level, and what stands behind it is made of
the other parts. -/
lemma split (h : Cutting sep s (l ++ r)) (hl : l ≠ []) (hr : r ≠ []) :
    ∃ v, s = join [sep] l ++ sep :: v ∧ Place.after .all {} (join [sep] l) = {} ∧
      Brackets.all.isPlain sep ∧ Cutting sep v r := by
  induction l generalizing s with
  | nil => exact absurd rfl hl
  | cons part l ih =>
    rw [List.cons_append] at h
    generalize hparts : l ++ r = parts at h
    cases h with
    | last => exact absurd (List.append_eq_nil_iff.mp hparts).2 hr
    | @cut _ s _ _ hafter hplain hrest =>
      subst hparts
      cases l with
      | nil => exact ⟨s, by simp [join], by simpa [join] using hafter, hplain, hrest⟩
      | cons next l =>
        obtain ⟨v, rfl, hv, -, hcutting⟩ := ih hrest (by simp)
        refine ⟨v, ?_, ?_, hplain, hcutting⟩
        · rw [join_cons_cons]
          simp
        · have hsep : Place.after .all {} [sep] = {} := Place.step_plain hplain
          rw [join_cons_cons, Place.after_append, Place.after_append, hafter, hsep, hv]

end Cutting

/-! ### The empty part at the end -/

/-- The text ends with a separator that stands outside of literals and brackets. -/
def endsInCut (sep : UInt8) (s : Text) : Bool :=
  s.getLast? == some sep && (Place.after .all {} s.dropLast).cutsAt .all (· == sep) sep

lemma endsInCut_append : endsInCut sep (s ++ [sep]) =
    (Place.after .all {} s).cutsAt .all (· == sep) sep := by
  simp [endsInCut]

lemma exists_of_endsInCut (h : endsInCut sep s) :
    ∃ u, s = u ++ [sep] ∧ Place.after .all {} u = {} ∧ Brackets.all.isPlain sep := by
  rw [endsInCut, Bool.and_eq_true, beq_iff_eq] at h
  obtain ⟨u, rfl⟩ := List.getLast?_eq_some_iff.mp h.1
  refine ⟨u, rfl, ?_⟩
  simpa using Place.eq_of_cutsAt h.2

lemma dropEmptyEnd_append (hr : r ≠ []) : dropEmptyEnd (l ++ r) = l ++ dropEmptyEnd r := by
  unfold dropEmptyEnd
  rw [List.getLast?_append_of_ne_nil _ hr, List.dropLast_append_of_ne_nil hr]
  split <;> rfl

/-- The last part is empty exactly if the text is, or if it ends in a cut. -/
lemma segments_eq_splitTopLevel_append (sep : UInt8) (s : Text) :
    segments .all (· == sep) {} s =
      splitTopLevel sep s ++ if s = [] ∨ endsInCut sep s then [[]] else [] := by
  have hcutting := cutting_segments sep s
  obtain ⟨init, last, hparts⟩ :=
    List.eq_nil_or_concat (segments .all (· == sep) {} s) |>.resolve_left hcutting.ne_nil
  rw [List.concat_eq_append] at hparts
  rw [splitTopLevel, hparts, dropEmptyEnd_append (by simp)]
  by_cases hlast : last = []
  · subst hlast
    have hempty : s = [] ∨ endsInCut sep s := by
      rw [hparts] at hcutting
      by_cases hinit : init = []
      · left
        rw [← hcutting.join_eq, hinit]
        rfl
      · right
        obtain ⟨v, rfl, hafter, hplain, hv⟩ := hcutting.split hinit (by simp)
        obtain rfl : v = [] := by rw [← hv.join_eq]; rfl
        rw [endsInCut_append, hafter]
        simp [Place.cutsAt, Place.isTop, hplain]
    rw [if_pos hempty]
    simp [dropEmptyEnd]
  · have hfull : ¬ (s = [] ∨ endsInCut sep s) := by
      rintro (rfl | hends)
      · have hnil : ([] : List Text) ++ [[]] = init ++ [last] := hparts
        exact hlast (List.append_singleton_inj.mp hnil).2.symm
      · obtain ⟨u, rfl, hafter, hplain⟩ := exists_of_endsInCut hends
        rw [segments_append_cut hafter hplain (by simp)] at hparts
        exact hlast (List.append_singleton_inj.mp hparts).2.symm
    rw [if_neg hfull]
    simp [dropEmptyEnd, hlast]

/-! ### The parts of a text -/

/-- The parts joined by separators are the text, without a separator at its end at which it is
cut. -/
lemma join_splitTopLevel (sep : UInt8) (s : Text) :
    join [sep] (splitTopLevel sep s) = if endsInCut sep s then s.dropLast else s := by
  have hjoin := (cutting_segments sep s).join_eq
  split_ifs with hends
  · obtain ⟨u, rfl, hafter, hplain⟩ := exists_of_endsInCut hends
    have hempty : dropEmptyEnd (segments .all (· == sep) {} []) = [] := rfl
    rw [splitTopLevel, segments_append_cut hafter hplain (by simp),
      dropEmptyEnd_append (segments_ne_nil _ []), hempty, List.append_nil,
      (cutting_segments sep u).join_eq, List.dropLast_concat]
  · by_cases hs : s = []
    · subst hs
      rfl
    · rw [segments_eq_splitTopLevel_append, if_neg (by simp [hs, hends]), List.append_nil] at hjoin
      exact hjoin

/-- Where a text is cut between two of its parts, a scan is at the top level, and what follows is cut
into the other parts. -/
lemma exists_cut (hl : l ≠ []) (hr : r ≠ []) (h : splitTopLevel sep s = l ++ r) :
    ∃ v, s = join [sep] l ++ sep :: v ∧ Place.after .all {} (join [sep] l) = {} ∧
      splitTopLevel sep v = r := by
  have hsegments := segments_eq_splitTopLevel_append sep s
  have hcutting := cutting_segments sep s
  generalize (if s = [] ∨ endsInCut sep s then [[]] else ([] : List Text)) = final at hsegments
  rw [h, List.append_assoc] at hsegments
  rw [hsegments] at hcutting
  obtain ⟨v, hv, hafter, -, hrest⟩ := hcutting.split hl (by simp [hr])
  refine ⟨v, hv, hafter, ?_⟩
  rw [splitTopLevel, hsegments, dropEmptyEnd_append (by simp [hr])] at h
  rw [splitTopLevel, hrest.segments_eq]
  exact List.append_cancel_left h

/-- A part that is not empty is not cut. -/
lemma splitTopLevel_part {part : Text} (h : part ∈ splitTopLevel sep s) (hpart : part ≠ []) :
    splitTopLevel sep part = [part] := by
  have hmem : part ∈ segments .all (· == sep) {} s := by
    rw [segments_eq_splitTopLevel_append]
    exact List.mem_append_left _ h
  have huncut := (cutting_segments sep s).uncut part hmem
  rw [splitTopLevel, uncut_iff_segments.mp huncut]
  simp [dropEmptyEnd, hpart]

/-- Cutting a text at the bytes `sep` outside of literals and brackets.

The parts joined by separators are the text, up to a separator at its end.  Every cut is at a
separator at the top level, behind which the text is cut as if it stood alone.  A part that is not
empty is its only part.  If the separator is neither quote nor bracket, a text that leads back to the
top level and another one, with a separator between them, are cut into the parts of both, where the
first one keeps an empty part at its end. -/
theorem splitTopLevel_lossless (sep : UInt8) (s : Text) :
    join [sep] (splitTopLevel sep s) = (if endsInCut sep s then s.dropLast else s) ∧
      (∀ l r, l ≠ [] → r ≠ [] → splitTopLevel sep s = l ++ r →
        ∃ v, s = join [sep] l ++ sep :: v ∧ (Place.after .all {} (join [sep] l)).isTop ∧
          splitTopLevel sep v = r) ∧
      (∀ part ∈ splitTopLevel sep s, part ≠ [] → splitTopLevel sep part = [part]) ∧
      (Brackets.all.isPlain sep → (Place.after .all {} s).isTop → ∀ t,
        splitTopLevel sep (s ++ sep :: t) =
          splitTopLevel sep s ++ (if s = [] ∨ endsInCut sep s then [[]] else []) ++
            splitTopLevel sep t) := by
  refine ⟨join_splitTopLevel sep s, ?_, fun part h hpart => splitTopLevel_part h hpart, ?_⟩
  · intro l r hl hr h
    obtain ⟨v, hv, hafter, hrest⟩ := exists_cut hl hr h
    exact ⟨v, hv, Place.isTop_iff.mpr hafter, hrest⟩
  · intro hplain htop t
    have hafter := Place.isTop_iff.mp htop
    rw [← segments_eq_splitTopLevel_append, splitTopLevel,
      segments_append_cut hafter hplain (by simp), dropEmptyEnd_append (segments_ne_nil _ t),
      splitTopLevel]

end DtoSchema.Source
