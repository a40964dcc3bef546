import DtoSchema.Proofs.Source.Nested
import DtoSchema.Proofs.Text.WhiteSpace

/-!
# Parts of nested texts

What a nested text starts with can be taken away: a plain byte, or a group of parentheses, leaves a
nested text behind (`Nested.of_cons`, `Nested.of_group`), and so do plain bytes taken away from its
end (`Nested.of_append`).  A reader of balanced parentheses does not look behind a nested text
(`Nested.readBalanced?_append`).

A balanced text that is cut at separators leaves nested parts, and the text behind it goes on behind
the last one of them (`exists_segments_append`).  A text that need not be balanced is not cut either
if no separator stands in it where a scan is at the top level (`segments_uncut`).
-/

namespace DtoSchema.Source

open Text

variable {brackets : Brackets} {sep sep' : UInt8 → Bool} {s t : Text}

/-! ### Plain bytes -/

lemma isQuote_of_isPlain {b : UInt8} (hb : brackets.isPlain b) : isQuote b = false := by
  simp only [Brackets.isPlain, Bool.and_eq_true, Bool.not_eq_true'] at hb
  exact hb.1.1

/-! ### What a nested text starts with -/

namespace Nested

lemma of_cons {b : UInt8} (h : Nested brackets sep (b :: s)) (hb : brackets.isPlain b) :
    Nested brackets sep s := by
  cases h with
  | byte _ _ hs => exact hs
  | literal hq => simp [Brackets.isPlain_quote hq] at hb
  | group hp => simp [Brackets.isPlain_open hp] at hb

lemma of_plain_append {a : Text} (ha : a.all brackets.isPlain) (h : Nested brackets sep (a ++ s)) :
    Nested brackets sep s := by
  induction a with
  | nil => exact h
  | cons b a ih =>
    rw [List.all_cons, Bool.and_eq_true] at ha
    exact ih ha.2 (h.of_cons ha.1)

/-- A nested text that starts with a bracket of a part of the family starts with a whole group. -/
lemma of_group {o c : UInt8} (hpart : (Brackets.single o c).isPartOf brackets)
    (hproper : (Brackets.single o c).isProper) (h : Nested brackets sep (o :: s)) :
    ∃ i r, s = i ++ c :: r ∧ Balanced (.single o c) i ∧ Nested brackets sep r := by
  have hopen : (Brackets.single o c).isPlain o = false :=
    Brackets.isPlain_open (c := c) (by simp [Brackets.pairs, Brackets.single])
  have hquote : isQuote o = false := by
    simp only [Brackets.isProper, Brackets.pairs, Brackets.single, List.zip_cons_cons,
      List.all_cons, Bool.and_eq_true, Bool.not_eq_true'] at hproper
    exact hproper.1.1.1
  cases h with
  | byte hb => simp [Brackets.isPlain_of_isPartOf hpart hb] at hopen
  | literal hq => simp [hq] at hquote
  | @group _ _ c' i r hp hi hr =>
    have hpair := List.all_eq_true.mp (Bool.and_eq_true_iff.mp hpart).2 (o, c') hp
    simp only [hopen, Bool.false_and, Bool.or_false, decide_eq_true_eq] at hpair
    have hclose : c' = c := by simpa [Brackets.pairs, Brackets.single] using hpair
    subst hclose
    exact ⟨i, r, rfl, hi.part hpart, hr⟩

/-- The reader of a block does not look behind a nested text. -/
lemma readBalanced?_append {o c : UInt8} (hpart : (Brackets.single o c).isPartOf brackets)
    (hproper : (Brackets.single o c).isProper) (h : Nested brackets sep s) (hne : s ≠ [])
    (t : Text) :
    readBalanced? o c (s ++ t) = (readBalanced? o c s).map fun r => (r.1, r.2 ++ t) := by
  obtain ⟨b, s, rfl⟩ := List.exists_cons_of_ne_nil hne
  by_cases hb : b = o
  · subst hb
    obtain ⟨i, r, rfl, hi, -⟩ := h.of_group hpart hproper
    rw [List.cons_append, List.append_assoc, List.cons_append, readBalanced?_nested hproper hi,
      readBalanced?_nested hproper hi, Option.map_some]
  · simp [readBalanced?, hb]

lemma of_readBalanced? {o c : UInt8} (hpart : (Brackets.single o c).isPartOf brackets)
    (hproper : (Brackets.single o c).isProper) (h : Nested brackets sep s) {content rest : Text}
    (hread : readBalanced? o c s = some (content, rest)) : Nested brackets sep rest := by
  rw [eq_of_readBalanced? hread] at h
  obtain ⟨i, r, heq, hi, hr⟩ := h.of_group hpart hproper
  have hsame := readBalanced?_nested hproper hi r
  rw [← heq, ← eq_of_readBalanced? hread, hread] at hsame
  obtain ⟨-, rfl⟩ := Prod.mk.inj (Option.some.inj hsame)
  exact hr

/-- A literal ends with a quote. -/
lemma getLast?_literal {q : UInt8} (hq : isQuote q) {t : Text} (h : Literal (.inside q) t) :
    t.getLast? = some q := by
  have hinside : ∀ {p : Quoting} {t : Text}, Literal p t →
      p = .inside q ∨ p = .escape q → t.getLast? = some q := by
    intro p t h
    induction h with
    | @close p b _ hb =>
      rintro (rfl | rfl)
      · by_cases hbq : b = q
        · simp [hbq]
        · by_cases hslash : b = ascii '\\' <;> simp [Quoting.step, hbq, hslash] at hb
      · simp [Quoting.step] at hb
    | @more p b t _ hb h ih =>
      intro hp
      have hne : t ≠ [] := by
        rintro rfl
        cases h
      rw [List.getLast?_cons_of_ne_nil hne]
      refine ih ?_
      rcases hp with rfl | rfl
      · by_cases hslash : b = ascii '\\'
        · simp [Quoting.step, hslash]
        · by_cases hbq : b = q
          · subst hbq
            exact absurd (by simp [Quoting.step, hslash]) hb
          · simp [Quoting.step, hbq, hslash]
      · simp [Quoting.step]
  exact hinside h (Or.inl rfl)

/-- A nested text with plain bytes behind it is nested without them. -/
lemma of_append {e : Text} (he : e.all brackets.isPlain) (h : Nested brackets sep (s ++ e)) :
    Nested brackets sep s := by
  -- the text is taken apart from its start; what closes last is not plain, so it closes before `e`
  have hclose : ∀ {a b r : Text} {c : UInt8}, a.getLast? = some c → brackets.isPlain c = false →
      b ++ e = a ++ r → ∃ b', b = a ++ b' ∧ r = b' ++ e := by
    intro a b r c hlast hc heq
    rcases List.append_eq_append_iff.mp heq with ⟨a', rfl, he'⟩ | ⟨b', rfl, hr⟩
    · rcases List.eq_nil_or_concat a' with rfl | ⟨a', d, rfl⟩
      · exact ⟨[], by simp, by simpa using he'.symm⟩
      · obtain rfl : d = c := by simpa [← List.append_assoc] using hlast
        rw [he', List.all_append, List.concat_eq_append, List.all_append] at he
        simp [hc] at he
    · exact ⟨b', rfl, hr⟩
  generalize hu : s ++ e = u at h
  induction h generalizing s with
  | nil =>
    obtain ⟨rfl, -⟩ := List.append_eq_nil_iff.mp hu
    exact .nil
  | @byte sep b u hb hb' _ ih =>
    cases s with
    | nil => exact .nil
    | cons c s =>
      obtain ⟨rfl, htail⟩ := List.cons.inj hu
      exact .byte hb hb' (ih htail)
  | @literal sep q l u hq hl _ ih =>
    cases s with
    | nil =>
      rw [List.nil_append] at hu
      simp [hu, Brackets.isPlain_quote hq] at he
    | cons c s =>
      obtain ⟨rfl, htail⟩ := List.cons.inj hu
      obtain ⟨s', rfl, hrest⟩ := hclose (getLast?_literal hq hl) (Brackets.isPlain_quote hq) htail
      exact .literal hq hl (ih hrest.symm)
  | @group sep o c i u hp hi _ _ ih =>
    cases s with
    | nil =>
      rw [List.nil_append] at hu
      simp [hu, Brackets.isPlain_open hp] at he
    | cons b s =>
      obtain ⟨rfl, htail⟩ := List.cons.inj hu
      rw [List.append_cons] at htail
      obtain ⟨s', rfl, hrest⟩ := hclose (c := c) (by simp) (Brackets.isPlain_close hp) htail
      rw [← List.append_cons]
      exact .group hp hi (ih hrest.symm)

end Nested

/-! ### Cutting a balanced text -/

/-- A text in front of the first of several parts. -/
lemma exists_glue {p : Text → Prop} {a : Text} (ha : ∀ q, p q → p (a ++ q)) {parts : List Text}
    {last : Text} (hparts : ∀ q ∈ parts, p q) (hlast : p last) :
    ∃ parts' last', (∀ q ∈ parts', p q) ∧ p last' ∧
      ∀ rest, glue a (parts ++ glue last rest) = parts' ++ glue last' rest := by
  cases parts with
  | nil => exact ⟨[], a ++ last, by simp, ha _ hlast, fun rest => (glue_append a last rest).symm⟩
  | cons q parts =>
    obtain ⟨hq, hqs⟩ := List.forall_mem_cons.mp hparts
    exact ⟨(a ++ q) :: parts, last, List.forall_mem_cons.mpr ⟨ha q hq, hqs⟩, hlast, fun _ => rfl⟩

/-- The parts of a balanced text are nested, and what follows the text stands behind the last of
them. -/
lemma exists_segments_append (hB : brackets.isProper) (hs : Nested brackets sep' s)
    (sep : UInt8 → Bool) :
    ∃ parts last, (∀ q ∈ parts, Nested brackets sep q) ∧ Nested brackets sep last ∧
      ∀ t, segments brackets sep {} (s ++ t) = parts ++ glue last (segments brackets sep {} t) := by
  have hfront : ∀ {a s : Text}, Nested brackets sep a →
      (∃ parts last, (∀ q ∈ parts, Nested brackets sep q) ∧ Nested brackets sep last ∧
        ∀ t, segments brackets sep {} (s ++ t) =
          parts ++ glue last (segments brackets sep {} t)) →
      ∃ parts last, (∀ q ∈ parts, Nested brackets sep q) ∧ Nested brackets sep last ∧
        ∀ t, segments brackets sep {} (a ++ s ++ t) =
          parts ++ glue last (segments brackets sep {} t) := by
    rintro a s ha ⟨parts, last, hparts, hlast, hcut⟩
    obtain ⟨parts', last', hparts', hlast', hglue⟩ :=
      exists_glue (p := Nested brackets sep) (fun q hq => ha.append hq) hparts hlast
    refine ⟨parts', last', hparts', hlast', fun t => ?_⟩
    rw [List.append_assoc, segments_nested hB ha (by simp), hcut, hglue]
  induction hs with
  | nil => exact ⟨[], [], by simp, .nil, fun t => (glue_nil (segments_ne_nil _ t)).symm⟩
  | @byte _ b s hb _ _ ih =>
    by_cases hsep : sep b
    · have hcut : Place.cutsAt brackets sep {} b := by simp [Place.cutsAt, Place.isTop, hb, hsep]
      obtain ⟨parts, last, hparts, hlast, hrest⟩ := ih
      refine ⟨[] :: parts, last, List.forall_mem_cons.mpr ⟨.nil, hparts⟩, hlast, fun t => ?_⟩
      rw [List.cons_append, segments_cut hcut, hrest, List.cons_append]
    · exact hfront (a := [b]) (.byte hb (by simpa using hsep) .nil) ih
  | @literal _ q l s hq hl _ ih =>
    have h := hfront (a := q :: l) (by simpa using Nested.literal hq hl .nil) ih
    simpa using h
  | @group _ o c i s hp hi _ _ ih =>
    have h := hfront (a := o :: (i ++ [c])) (.enclose hp hi) ih
    simpa using h

/-! ### Texts that are not cut -/

/-- There is a first part. -/
lemma exists_segments_cons (brackets : Brackets) (sep : UInt8 → Bool) (p : Place) (s : Text) :
    ∃ part parts, segments brackets sep p s = part :: parts :=
  List.exists_cons_of_ne_nil (segments_ne_nil p s)

/-- The place behind a text. -/
def Place.after (brackets : Brackets) (p : Place) (s : Text) : Place :=
  s.foldl (Place.step brackets) p

@[simp] lemma Place.after_nil (p : Place) : p.after brackets [] = p := rfl

lemma Place.after_append (p : Place) (s t : Text) :
    p.after brackets (s ++ t) = (p.after brackets s).after brackets t :=
  List.foldl_append

/-- A literal leads back to code. -/
lemma Place.after_literal {q : Quoting} {d : ℕ} (h : Literal q t) :
    Place.after brackets ⟨q, d⟩ t = ⟨.code, d⟩ := by
  induction h with
  | @close q b hq hb => simp [Place.after, Place.step_literal hq, hb]
  | @more q b t hq _ _ ih =>
    rw [← ih, ← Place.step_literal hq]
    rfl

/-- A scan leaves a nested text at the place where it came. -/
lemma Place.after_nested (hB : brackets.isProper) (hs : Nested brackets sep s) {d : ℕ} :
    Place.after brackets ⟨.code, d⟩ s = ⟨.code, d⟩ := by
  have hcons : ∀ (p : Place) (b : UInt8) (u : Text),
      p.after brackets (b :: u) = (p.step brackets b).after brackets u := fun _ _ _ => rfl
  induction hs generalizing d with
  | nil => rfl
  | byte hb _ _ ih => rw [hcons, Place.step_plain hb, ih]
  | literal hq hl _ ih =>
    rw [hcons, Place.step_quote hq, Place.after_append, Place.after_literal hl, ih]
  | group hp _ _ ihi ih =>
    rw [hcons, Place.step_open hB hp, Place.after_append, ihi, hcons, Place.step_close hB hp, ih]

/-- No separator stands in the text where a scan from the place `p` on is at the top level. -/
def Uncut (brackets : Brackets) (sep : UInt8 → Bool) (p : Place) (s : Text) : Prop :=
  ∀ u b v, s = u ++ b :: v → (p.after brackets u).cutsAt brackets sep b = false

lemma Uncut.append {p : Place} (hs : Uncut brackets sep p s)
    (ht : Uncut brackets sep (p.after brackets s) t) : Uncut brackets sep p (s ++ t) := by
  intro u b v heq
  rcases List.append_eq_append_iff.mp heq with ⟨u', rfl, hv⟩ | ⟨v', rfl, hv⟩
  · rw [Place.after_append]
    exact ht u' b v hv
  · cases v' with
    | nil => simpa using ht [] b v (by simpa using hv.symm)
    | cons c v' =>
      obtain ⟨rfl, -⟩ := List.cons.inj hv
      exact hs u b v' rfl

/-- A text that is not cut stays in front of what follows. -/
lemma segments_uncut {p : Place} (hs : Uncut brackets sep p s) (t : Text) :
    segments brackets sep p (s ++ t) = glue s (segments brackets sep (p.after brackets s) t) := by
  induction s generalizing p with
  | nil => exact (glue_nil (segments_ne_nil _ t)).symm
  | cons b s ih =>
    have hfirst : p.cutsAt brackets sep b = false := hs [] b s rfl
    have hrest : Uncut brackets sep (p.step brackets b) s := fun u c v heq =>
      hs (b :: u) c v (congrArg (b :: ·) heq)
    rw [List.cons_append, segments_cons hfirst, ih hrest, ← glue_append]
    rfl

/-- A byte at which a text is cut leaves a scan where it is. -/
lemma Place.step_cut {p : Place} {b : UInt8} (h : p.cutsAt brackets sep b) :
    p.step brackets b = p := by
  simp only [Place.cutsAt, Place.isTop, Bool.and_eq_true, beq_iff_eq] at h
  obtain ⟨⟨⟨hq, hd⟩, hb⟩, -⟩ := h
  have hp : p = ⟨.code, 0⟩ := by rw [← hq, ← hd]
  rw [hp, Place.step_plain hb]

/-- A text that is not cut stays behind the last part of what stands before it. -/
lemma exists_segments_uncut (brackets : Brackets) (sep : UInt8 → Bool) (p : Place) (s : Text) :
    ∃ parts last, segments brackets sep p s = parts ++ [last] ∧
      ∀ t, Uncut brackets sep (p.after brackets s) t →
        segments brackets sep p (s ++ t) = parts ++ [last ++ t] := by
  induction s generalizing p with
  | nil =>
    refine ⟨[], [], rfl, fun t ht => ?_⟩
    have h := segments_uncut ht []
    rw [List.append_nil] at h
    rw [Place.after_nil] at h
    rw [List.nil_append, h]
    simp [segments]
  | cons b s ih =>
    by_cases hcut : p.cutsAt brackets sep b
    · obtain ⟨parts, last, hs, hrest⟩ := ih p
      refine ⟨[] :: parts, last, by rw [segments_cut hcut, hs, List.cons_append], fun t ht => ?_⟩
      have hafter : p.after brackets (b :: s) = p.after brackets s := by
        conv_rhs => rw [← Place.step_cut hcut]
        rfl
      rw [List.cons_append, segments_cut hcut, hrest t (hafter ▸ ht), List.cons_append]
    · rw [Bool.not_eq_true] at hcut
      obtain ⟨parts, last, hs, hrest⟩ := ih (p.step brackets b)
      cases parts with
      | nil =>
        refine ⟨[], b :: last, by rw [segments_cons hcut, hs]; rfl, fun t ht => ?_⟩
        rw [List.cons_append, segments_cons hcut, hrest t ht]
        rfl
      | cons q parts =>
        refine ⟨(b :: q) :: parts, last, by rw [segments_cons hcut, hs]; rfl, fun t ht => ?_⟩
        rw [List.cons_append, segments_cons hcut, hrest t ht]
        rfl

/-- A text is not cut if it is its only part. -/
lemma uncut_iff_segments {p : Place} :
    Uncut brackets sep p s ↔ segments brackets sep p s = [s] := by
  refine ⟨fun h => by simpa [segments, glue] using segments_uncut h [], fun h => ?_⟩
  induction s generalizing p with
  | nil =>
    intro u b v heq
    simp at heq
  | cons b s ih =>
    rw [segments] at h
    split at h
    · simp at h
    · next hcut =>
      have hrest : segments brackets sep (p.step brackets b) s = [s] := by
        cases hs : segments brackets sep (p.step brackets b) s with
        | nil => exact absurd hs (segments_ne_nil _ s)
        | cons part parts => simpa [hs] using h
      rw [Bool.not_eq_true] at hcut
      rintro (_ | ⟨c, u⟩) d v heq
      · obtain ⟨rfl, -⟩ := List.cons.inj heq
        exact hcut
      · obtain ⟨rfl, rfl⟩ := List.cons.inj heq
        exact ih hrest u d v rfl

instance {p : Place} : Decidable (Uncut brackets sep p s) :=
  decidable_of_iff _ uncut_iff_segments.symm

/-- A text without separators is not cut. -/
lemma uncut_of_notMem {c : UInt8} (h : c ∉ s) (p : Place) : Uncut brackets (· == c) p s := by
  intro u b v heq
  have hb : b ≠ c := by
    rintro rfl
    exact h (by simp [heq])
  simp [Place.cutsAt, hb]

/-- A separator behind a text that leads back to the top level cuts there. -/
lemma segments_append_cut {p : Place} (hs : p.after brackets s = {}) {b : UInt8}
    (hb : brackets.isPlain b) (hsep : sep b) (t : Text) :
    segments brackets sep p (s ++ b :: t) =
      segments brackets sep p s ++ segments brackets sep {} t := by
  have htop : Place.cutsAt brackets sep {} b := by simp [Place.cutsAt, Place.isTop, hb, hsep]
  induction s generalizing p with
  | nil =>
    obtain rfl : p = {} := hs
    rw [List.nil_append, segments_cut htop]
    rfl
  | cons c s ih =>
    by_cases hcut : p.cutsAt brackets sep c
    · have hafter : p.after brackets s = {} := by
        rw [← hs]
        conv_lhs => rw [← Place.step_cut hcut]
        rfl
      rw [List.cons_append, segments_cut hcut, segments_cut hcut, ih hafter, List.cons_append]
    · rw [Bool.not_eq_true] at hcut
      obtain ⟨q, qs, hqs⟩ := exists_segments_cons brackets sep (p.step brackets c) s
      rw [List.cons_append, segments_cons hcut, segments_cons hcut, ih hs, hqs]
      rfl

/-- A list of texts that lead back to the top level, the last one apart, is cut into theirs. -/
lemma segments_join_closed {b : UInt8} (hb : brackets.isPlain b) (hsep : sep b) {ts : List Text}
    (hne : ts ≠ []) (hts : ∀ t ∈ ts.dropLast, Place.after brackets {} t = {}) :
    segments brackets sep {} (join [b] ts) = ts.flatMap (segments brackets sep {}) := by
  induction ts with
  | nil => exact absurd rfl hne
  | cons t ts ih =>
    cases ts with
    | nil => simp [join]
    | cons u ts =>
      rw [List.dropLast_cons_cons, List.forall_mem_cons] at hts
      rw [join_cons_cons, List.append_assoc, List.singleton_append,
        segments_append_cut hts.1 hb hsep, ih (by simp) hts.2]
      rfl

/-- A byte that is not found in a text is searched for behind it. -/
lemma topLevelFrom_append (target : UInt8) (p : Place) (s t : Text) :
    topLevelFrom target p (s ++ t) = (topLevelFrom target p s).or
      ((topLevelFrom target (p.after .grouping s) t).map (· + s.length)) := by
  induction s generalizing p with
  | nil => simp [topLevelFrom]
  | cons b s ih =>
    by_cases hcut : p.cutsAt .grouping (· == target) b
    · simp [topLevelFrom, hcut]
    · rw [Bool.not_eq_true] at hcut
      rw [List.cons_append, topLevelFrom_cons hcut, topLevelFrom_cons hcut, ih, Option.map_or,
        Option.map_map]
      rfl

lemma topLevelFrom_of_not_mem {target : UInt8} (p : Place) (h : target ∉ s) :
    topLevelFrom target p s = none := by
  induction s generalizing p with
  | nil => rfl
  | cons b s ih =>
    rw [List.mem_cons, not_or] at h
    have hcut : p.cutsAt .grouping (· == target) b = false := by
      simp [Place.cutsAt, Ne.symm h.1]
    rw [topLevelFrom_cons hcut, ih _ h.2, Option.map_none]

lemma isSome_topLevelIndex?_append {target : UInt8} (h : (topLevelIndex? target s).isSome)
    (t : Text) : (topLevelIndex? target (s ++ t)).isSome := by
  rw [topLevelIndex?, topLevelFrom_append]
  exact Option.isSome_or.trans (by rw [← topLevelIndex?, h, Bool.true_or])

lemma lt_length_of_topLevelFrom {target : UInt8} {p : Place} {i : ℕ}
    (h : topLevelFrom target p s = some i) : i < s.length := by
  induction s generalizing p i with
  | nil => simp [topLevelFrom] at h
  | cons b s ih =>
    rw [topLevelFrom] at h
    split at h
    · simp [← Option.some.inj h]
    · obtain ⟨j, hj, rfl⟩ := Option.map_eq_some_iff.mp h
      simpa using ih hj

/-- What stands before a byte in a text with more behind it: the same as without, or all of the text
and some of what is behind. -/
lemma beforeTopLevel_append (target : UInt8) (s t : Text) :
    beforeTopLevel target (s ++ t) = beforeTopLevel target s ∨
      beforeTopLevel target s = s ∧ ∃ v, v <+: t ∧ beforeTopLevel target (s ++ t) = s ++ v := by
  have happend := topLevelFrom_append target {} s t
  cases hs : topLevelFrom target {} s with
  | some i =>
    left
    rw [hs, Option.some_or] at happend
    have hlt := lt_length_of_topLevelFrom hs
    simp only [beforeTopLevel, topLevelIndex?, happend, hs, List.take_append_of_le_length hlt.le]
  | none =>
    right
    rw [hs, Option.none_or] at happend
    refine ⟨by simp [beforeTopLevel, topLevelIndex?, hs], ?_⟩
    cases ht : topLevelFrom target (Place.after .grouping {} s) t with
    | none => exact ⟨t, List.prefix_refl t, by simp [beforeTopLevel, topLevelIndex?, happend, ht]⟩
    | some j =>
      refine ⟨t.take j, List.take_prefix j t, ?_⟩
      simp [beforeTopLevel, topLevelIndex?, happend, ht, List.take_append]

end DtoSchema.Source
