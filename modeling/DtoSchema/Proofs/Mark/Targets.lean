import DtoSchema.Proofs.Mark.Written

/-!
# Targets of annotations

One of the dialects lets an annotation say what it applies to.  The targets `field:` and `get:` make
no difference: they are dropped from the text before it is read, wherever they stand, and so also
inside of arguments.

Dropping them moves neither brackets nor separators (`Place.after?_untargeted`) and uncovers no
white space (`trim_dropTargets`).  So what is left of a printed list of annotations is a printed
list again, of the same names and with the values of the same arguments (`dropTargets_texts`).  The
targets of the annotations themselves are gone for good, but a string in an argument loses the
targets in it as well.
-/

namespace DtoSchema.Constraints

open Text Source Declaration

/-! ### Dropping targets -/

/-- The targets that make no difference, with their colons. -/
def transparent : List Text := [utf8 "field:", utf8 "get:"]

/-- The second text is the first one without these targets. -/
inductive Untargeted : Text → Text → Prop
  | nil : Untargeted [] []
  | target {w s r : Text} : w ∈ transparent → Untargeted s r →
      Untargeted (ascii '@' :: (w ++ s)) (ascii '@' :: r)
  | stay {b : UInt8} {s r : Text} : (∀ w ∈ transparent, ¬ ascii '@' :: w <+: b :: s) →
      Untargeted s r → Untargeted (b :: s) (b :: r)

lemma dropTargets_cons {b : UInt8} {s : Text}
    (h : ∀ w ∈ transparent, ¬ ascii '@' :: w <+: b :: s) :
    dropTargets (b :: s) = b :: dropTargets s := by
  have hnone : ∀ w ∈ transparent, (ascii '@' :: w).isPrefixOf (b :: s) = false := fun w hw =>
    Bool.eq_false_iff.mpr fun hstart => h w hw ( List.isPrefixOf_iff_prefix.mp hstart)
  refine dropTargets_stay ?_ ?_
  · rw [utf8_fieldTarget]
    exact hnone _ (by simp [transparent])
  · rw [utf8_getTarget]
    exact hnone _ (by simp [transparent])

lemma untargeted_dropTargets (s : Text) : Untargeted s (dropTargets s) := by
  induction hn : s.length using Nat.strong_induction_on generalizing s with
  | _ n ih =>
    cases s with
    | nil => exact .nil
    | cons b s =>
      by_cases htarget : ∃ w ∈ transparent, ascii '@' :: w <+: b :: s
      · obtain ⟨w, hw, t, ht⟩ := htarget
        rw [← ht, List.cons_append, dropTargets_target (List.mem_pair.mp hw)]
        refine .target hw (ih t.length ?_ t rfl)
        rw [← hn, ← ht, List.length_append, List.length_cons]
        omega
      · have hstay : ∀ w ∈ transparent, ¬ ascii '@' :: w <+: b :: s := by simpa using htarget
        rw [dropTargets_cons hstay]
        exact .stay hstay (ih s.length (by rw [← hn]; simp) s rfl)

namespace Untargeted

variable {s r : Text}

lemma eq_dropTargets (h : Untargeted s r) : r = dropTargets s := by
  induction h with
  | nil => rfl
  | target hw _ ih => rw [dropTargets_target (List.mem_pair.mp hw), ih]
  | stay hstay _ ih => rw [dropTargets_cons hstay, ih]

lemma mem_iff (h : Untargeted s r) : ascii '@' ∈ s ↔ ascii '@' ∈ r := by
  induction h with
  | nil => rfl
  | target => simp
  | stay _ _ ih => simp [ih]

lemma head?_eq (h : Untargeted s r) : r.head? = s.head? := by
  cases h <;> rfl

lemma isEmpty_eq (h : Untargeted s r) : r.isEmpty = s.isEmpty := by
  cases h <;> rfl

end Untargeted

lemma head?_dropTargets (s : Text) : (dropTargets s).head? = s.head? :=
  (untargeted_dropTargets s).head?_eq

lemma dropTargets_of_notMem {s : Text} (h : ascii '@' ∉ s) : dropTargets s = s := by
  simpa [dropTargets, dropTargetsFrom] using dropTargets_append h []

/-- Whether the byte occurs in a target. -/
def isTargetByte (b : UInt8) : Bool := transparent.any (b ∈ ·)

lemma isInert_of_isTargetByte {b : UInt8} (hb : isTargetByte b) : isInert b && isInk b := by
  have hbytes : transparent.all (·.all fun b => isInert b && isInk b) := by decide
  obtain ⟨w, hw, hmem⟩ := List.any_eq_true.mp hb
  exact List.all_eq_true.mp (List.all_eq_true.mp hbytes w hw) b (by simpa using hmem)

/-- A byte that is not visible or may take part in the structure of a text occurs in no target. -/
lemma isTargetByte_eq_false {b : UInt8} (hb : (isInert b && isInk b) = false) :
    isTargetByte b = false :=
  Bool.eq_false_iff.mpr fun h => by simp [isInert_of_isTargetByte h] at hb

/-- A target does not reach into a text that starts with another byte. -/
lemma dropTargets_append_stop (s : Text) {t : Text} (ht : t.head?.any isTargetByte = false) :
    dropTargets (s ++ t) = dropTargets s ++ dropTargets t := by
  suffices hrel : ∀ {s r : Text}, Untargeted s r → Untargeted (s ++ t) (r ++ dropTargets t) from
    (hrel (untargeted_dropTargets s)).eq_dropTargets.symm
  intro s r h
  induction h with
  | nil => exact untargeted_dropTargets t
  | target hw _ ih => 
    rw [List.cons_append, List.append_assoc]
    exact .target hw ih
  | @stay b s r hstay _ ih =>
    refine .stay (fun w hw hstart => ?_) ih
    rcases List.prefix_or_prefix_of_prefix hstart (List.prefix_append (b :: s) t) with h | ⟨u, hu⟩
    · exact hstay w hw h
    · -- the target would go on in the text behind
      cases u with
      | nil => exact hstay w hw (by rw [← hu, List.append_nil])
      | cons c u =>
        have hrest : b :: s ++ c :: u <+: b :: s ++ t := by
          rw [hu]
          exact hstart
        obtain ⟨v, rfl⟩ := (List.prefix_append_right_inj _).mp hrest
        have hc : c ∈ w := by
          have hmem : w = s ++ c :: u := (List.cons.inj hu).2.symm
          simp [hmem]
        have hbyte : isTargetByte c := List.any_eq_true.mpr ⟨w, hw, by simpa using hc⟩
        simp [hbyte] at ht

/-! ### Trimming -/

lemma Untargeted.trimEnd_eq {s r : Text} (h : Untargeted s r) (hs : trimEnd s = s) :
    trimEnd r = r := by
  induction h with
  | nil => exact hs
  | @target w s r _ _ ih =>
    have htail : trimEnd s = s := trimEnd_of_isSuffix hs ⟨ascii '@' :: w, rfl⟩
    rw [← List.nil_append (ascii '@' :: r), trimEnd_append_ink (by decide), ih htail]
  | @stay b s r _ hrel ih =>
    have htail : trimEnd s = s := trimEnd_of_isSuffix hs ⟨[b], rfl⟩
    rw [trimEnd_cons, ih htail]
    refine if_neg fun hspace => ?_
    -- what is white space now holds no target, so it was white space before
    have hat : ascii '@' ∉ b :: r := notMem_spaces (by decide) hspace
    have hsame : r = s := by
      rw [hrel.eq_dropTargets, dropTargets_of_notMem]
      exact fun hmem => hat (List.mem_cons_of_mem b (hrel.mem_iff.mp hmem))
    rw [trimEnd_cons, htail, if_pos (hsame ▸ hspace)] at hs
    exact absurd hs.symm (by simp)

lemma trimStart_append_ink {k : UInt8} (hk : isInk k) (s x : Text) :
    trimStart (s ++ k :: x) = trimStart s ++ k :: x := by
  rw [trimStart_append s (by simpa using isContinuation_of_isInk hk), trimStart_ink hk]
  split
  · next hnil => rw [hnil, List.nil_append]
  · rfl

lemma trimStart_dropTargets {s : Text} (hs : trimStart s = s) :
    trimStart (dropTargets s) = dropTargets s := by
  by_cases hat : ascii '@' ∈ s
  · obtain ⟨a, x, rfl, ha⟩ := List.eq_append_cons_of_mem hat
    obtain ⟨y, hy⟩ : ∃ y, dropTargets (ascii '@' :: x) = ascii '@' :: y :=
      List.head?_eq_some_iff.mp (head?_dropTargets (ascii '@' :: x))
    rw [trimStart_append_ink (by decide)] at hs
    rw [dropTargets_append ha, hy, trimStart_append_ink (by decide),
      List.append_cancel_right hs]
  · rw [dropTargets_of_notMem hat, hs]

lemma trim_dropTargets (s : Text) : trim (dropTargets s) = dropTargets (trim s) := by
  have hspace : ∀ {w : Text}, IsSpace w → ascii '@' ∉ w := fun hw => hw.notMem (by decide)
  have hstop : ∀ {w : Text}, IsSpace w → w.head?.any isTargetByte = false := by
    intro w hw
    cases w with
    | nil => rfl
    | cons b w => exact isTargetByte_eq_false (by simp [hw.isInk_of_mem])
  obtain ⟨w, hw, hspacew⟩ := exists_space_append s
  obtain ⟨w', hw', hspacew'⟩ := exists_append_space (trimStart s)
  have hcore : trimStart (trim s) = trim s := dropLeading_stay (leadingWidth_trim s)
  have hend : trimEnd (trim s) = trim s := by rw [trim, trimEnd_trimEnd]
  have hs : dropTargets s = w ++ (dropTargets (trim s) ++ w') := by
    conv_lhs => rw [hw, hw', dropTargets_append (hspace hspacew), ← trim,
      dropTargets_append_stop _ (hstop hspacew'), dropTargets_of_notMem (hspace hspacew')]
  rw [hs, trim, trimStart_space hspacew, ← trim, trim_append_space hspacew', trim,
    trimStart_dropTargets hcore, (untargeted_dropTargets _).trimEnd_eq hend]

end DtoSchema.Constraints

namespace DtoSchema.Source

open Text Constraints

/-! ### Scanning -/

section

variable {brackets : Brackets} {sep : UInt8 → Bool} {s r : Text}

lemma Place.after?_inert (hi : Ignores brackets sep) {p : Place} (hq : p.quoting.isProper)
    (hs : p.quoting.isSettled) {c : Text} (hc : c.all isInert) (s : Text) :
    p.after? brackets (c ++ s) = p.after? brackets s := by
  induction c with
  | nil => rfl
  | cons b c ih =>
    rw [List.all_cons, Bool.and_eq_true] at hc
    rw [List.cons_append, Place.after?_cons, Place.step?_plain (hi.plain b hc.1),
      Place.step_inert hi hq hs hc.1, Option.bind_some, ih hc.2]

lemma uncut_cons {p : Place} {b : UInt8} : Uncut brackets sep p (b :: s) ↔
    p.cutsAt brackets sep b = false ∧ Uncut brackets sep (p.step brackets b) s := by
  refine ⟨fun h => ⟨h [] b s rfl, fun u c v heq => h (b :: u) c v (by rw [heq]; rfl)⟩, ?_⟩
  rintro ⟨hfirst, hrest⟩ u c v heq
  cases u with
  | nil =>
    obtain ⟨rfl, rfl⟩ := List.cons.inj heq
    exact hfirst
  | cons c' u =>
    obtain ⟨rfl, rfl⟩ := List.cons.inj heq
    exact hrest u c v rfl

lemma uncut_of_inert_append (hi : Ignores brackets sep) {p : Place} (hq : p.quoting.isProper)
    (hs : p.quoting.isSettled) {c : Text} (hc : c.all isInert)
    (h : Uncut brackets sep p (c ++ s)) : Uncut brackets sep p s := by
  induction c with
  | nil => exact h
  | cons b c ih =>
    rw [List.all_cons, Bool.and_eq_true] at hc
    rw [List.cons_append, uncut_cons, Place.step_inert hi hq hs hc.1] at h
    exact ih hc.2 h.2

lemma all_isInert_of_mem {w : Text} (hw : w ∈ transparent) : w.all isInert := by
  have hall : transparent.all (·.all isInert) := by decide
  exact List.all_eq_true.mp hall w hw

/-- Targets do not move the place of what stands behind them. -/
lemma Place.after?_untargeted (hi : Ignores brackets sep) (hat : brackets.isPlain (ascii '@'))
    (h : Untargeted s r) {p : Place} (hp : p.quoting.isProper) :
    p.after? brackets s = p.after? brackets r := by
  induction h generalizing p with
  | nil => rfl
  | @target w s r hw _ ih =>
    have hp' : (p.step brackets (ascii '@')).quoting.isProper := Quoting.isProper_step hp _
    rw [Place.after?_cons, Place.after?_cons, Place.step?_plain hat, Option.bind_some,
      Option.bind_some, Place.after?_inert hi hp' (Quoting.isSettled_step _ (by decide))
        (all_isInert_of_mem hw), ih hp']
  | @stay b s r _ _ ih =>
    rw [Place.after?_cons, Place.after?_cons]
    cases hstep : p.step? brackets b with
    | none => rfl
    | some p' =>
      rw [Option.bind_some, Option.bind_some]
      refine ih ?_
      rw [Place.eq_step_of_step? hstep]
      exact Quoting.isProper_step hp b

lemma uncut_untargeted (hi : Ignores brackets sep) (h : Untargeted s r) {p : Place}
    (hp : p.quoting.isProper) (hs : Uncut brackets sep p s) : Uncut brackets sep p r := by
  induction h generalizing p with
  | nil => exact hs
  | @target w s r hw _ ih =>
    rw [uncut_cons] at hs ⊢
    have hp' : (p.step brackets (ascii '@')).quoting.isProper := Quoting.isProper_step hp _
    exact ⟨hs.1, ih hp' (uncut_of_inert_append hi hp' (Quoting.isSettled_step _ (by decide))
      (all_isInert_of_mem hw) hs.2)⟩
  | @stay b s r _ _ ih =>
    rw [uncut_cons] at hs ⊢
    exact ⟨hs.1, ih (Quoting.isProper_step hp b) hs.2⟩

end

lemma isBalancedInAll_dropTargets {s : Text} (h : isBalancedInAll s) :
    isBalancedInAll (dropTargets s) := by
  refine List.all_eq_true.mpr fun p hp => ?_
  have hpart := isPartOf_all hp
  have hi : Ignores (.single p.1 p.2) fun _ => false :=
    ⟨fun _ hb => Brackets.isPlain_of_isPartOf hpart (Brackets.isPlain_of_class (by decide) hb),
      fun _ _ => rfl⟩
  have hat : (Brackets.single p.1 p.2).isPlain (ascii '@') :=
    Brackets.isPlain_of_isPartOf hpart (by decide)
  have hs := List.all_eq_true.mp h p hp
  rw [isBalanced, Place.after?_untargeted hi hat (untargeted_dropTargets s) rfl] at hs
  exact hs

end DtoSchema.Source

namespace DtoSchema.Mark

open Text Source Declaration Constraints

/-! ### Printed annotations -/

/-- The value without the targets in it. -/
def Value.untargeted (v : Value) : Value where
  text := dropTargets v.text
  ne_nil := by
    rw [← List.isEmpty_eq_false_iff, (untargeted_dropTargets v.text).isEmpty_eq,
      List.isEmpty_eq_false_iff]
    exact v.ne_nil
  trimmed := by rw [trim_dropTargets, v.trimmed]
  balanced := isBalancedInAll_dropTargets v.balanced
  uncut := uncut_untargeted (Elides.ignores_all (by decide)) (untargeted_dropTargets v.text) rfl
    v.uncut

/-- The argument without the targets in it. -/
def Entry.untargeted : Entry → Entry
  | named key before behind value => named key before behind value.untargeted
  | positional value uncut => positional value.untargeted
      (uncut_untargeted (Elides.ignores_all (by decide)) (untargeted_dropTargets value.text) rfl uncut)

namespace Written

/-- The annotation without a target that makes no difference and without such targets in its
arguments. -/
def untargeted (a : Written) : Written where
  target := a.target.filter fun w => w.1 ++ [ascii ':'] ∉ transparent
  name := a.name
  arguments := a.arguments.map fun p => (p.1, p.2.map fun e => (e.1, e.2.1.untargeted, e.2.2))

end Written

lemma head?_gaps_isTargetByte (g : Gaps) {t : Text} (ht : t.head?.any isTargetByte = false) :
    (g.1 ++ t).head?.any isTargetByte = false := by
  obtain ⟨g, hg⟩ := g
  cases g with
  | nil => exact ht
  | cons b g =>
    have hb : isGap b := List.all_eq_true.mp hg b (by simp)
    exact isTargetByte_eq_false (by simp [isInk_of_isGap hb])

namespace Entry

lemma dropTargets_text (e : Entry) : dropTargets e.text = e.untargeted.text := by
  cases e with
  | positional => rfl
  | named key before behind value =>
    exact dropTargets_append (notMem_lead key before behind (by decide)) value.text

/-- The argument with its gaps, without the targets in it. -/
lemma dropTargets_padded (e : Gaps × Entry × Gaps) :
    dropTargets (padded e) = padded (e.1, e.2.1.untargeted, e.2.2) := by
  have hbehind : (e.2.2.1).head?.any isTargetByte = false := by
    simpa using head?_gaps_isTargetByte e.2.2 (t := []) rfl
  rw [padded, dropTargets_append_stop _ hbehind, dropTargets_append (e.1.notMem (by decide)),
    dropTargets_text, dropTargets_of_notMem (e.2.2.notMem (by decide)), padded]

end Entry

namespace Written

lemma dropTargets_inside (entries : List (Gaps × Entry × Gaps)) :
    dropTargets (inside entries) =
      inside (entries.map fun e => (e.1, e.2.1.untargeted, e.2.2)) := by
  induction entries with
  | nil => rfl
  | cons e entries ih =>
    cases entries with
    | nil => simpa [inside, join] using Entry.dropTargets_padded e
    | cons e' entries =>
      simp only [inside, List.map_cons, join_cons_cons, List.append_assoc, List.singleton_append]
        at ih ⊢
      have hcomma : ascii '@' ∉ [ascii ','] := by decide
      rw [dropTargets_append_stop _ (by simp; decide), Entry.dropTargets_padded,
        ← List.singleton_append, dropTargets_append hcomma, ih, List.singleton_append]

lemma notMem_name (a : Written) {b : UInt8} (hb : isNamePart b = false) : b ∉ a.name.text :=
  fun h => by simp [List.all_eq_true.mp (a.name.text_all fun _ h => h) b h] at hb

/-- The name of an annotation is kept, and so is a target that makes a difference. -/
lemma dropTargets_heading (a : Written) : dropTargets a.heading = a.untargeted.heading := by
  have hname : dropTargets a.name.text = a.name.text :=
    dropTargets_of_notMem (a.notMem_name (by decide))
  cases htarget : a.target with
  | none =>
    have hcolon : transparent.all (ascii ':' ∈ ·) := by decide
    have hheading : a.heading = ascii '@' :: a.name.text := by simp [heading, htarget]
    rw [hheading, dropTargets_cons, hname]
    · simp [heading, untargeted, htarget]
    · rintro w hw ⟨v, hv⟩
      have hmem : ascii ':' ∈ w := by simpa using List.all_eq_true.mp hcolon w hw
      refine a.notMem_name (b := ascii ':') (by decide) ?_
      rw [← (List.cons.inj hv).2]
      exact List.mem_append_left v hmem
  | some t =>
    have hheading : a.heading = ascii '@' :: (t.1 ++ [ascii ':'] ++ a.name.text) := by
      simp [heading, htarget]
    by_cases ht : t.1 ++ [ascii ':'] ∈ transparent
    · rw [hheading, dropTargets_target (List.mem_pair.mp ht), hname]
      simp [heading, untargeted, htarget, Option.filter, ht]
    · have hfront : ascii '@' ∉ t.1 ++ [ascii ':'] ++ a.name.text := by
        simp only [List.mem_append, List.mem_singleton, not_or]
        exact ⟨⟨t.notMem (by decide), by decide⟩, a.notMem_name (by decide)⟩
      rw [hheading, dropTargets_cons, dropTargets_of_notMem hfront]
      · simp [heading, untargeted, htarget, Option.filter, ht]
      · rintro w hw ⟨v, hv⟩
        -- both targets are identifiers in front of their colons
        have hword : transparent.all fun w =>
            w == w.dropLast ++ [ascii ':'] && w.dropLast.all isIdentPart := by decide
        have hw' := List.all_eq_true.mp hword w hw
        rw [Bool.and_eq_true, beq_iff_eq] at hw'
        have heq : w.dropLast ++ ascii ':' :: v = t.1 ++ ascii ':' :: a.name.text := by
          have htail := (List.cons.inj hv).2
          rw [hw'.1] at htail
          simpa using htail
        have hsame := run_append_inj hw'.2 (all_isIdentPart_of_isIdent t.2) (by simp; decide)
          (by simp; decide) heq
        exact ht (by rw [← hsame.1, ← hw'.1]; exact hw)

lemma dropTargets_parenthesized (a : Written) :
    dropTargets a.parenthesized = a.untargeted.parenthesized := by
  unfold parenthesized untargeted
  cases a.arguments with
  | none => rfl
  | some p =>
    have hfront : ascii '@' ∉ p.1.1 ++ [ascii '('] := by
      rw [List.mem_append, not_or]
      exact ⟨p.1.notMem (by decide), by decide⟩
    have hclose : dropTargets (inside p.2 ++ [ascii ')']) =
        inside (p.2.map fun e => (e.1, e.2.1.untargeted, e.2.2)) ++ [ascii ')'] := by
      rw [dropTargets_append_stop _ (by decide), dropTargets_inside,
        dropTargets_of_notMem (by decide)]
    have hdrop := dropTargets_append hfront (inside p.2 ++ [ascii ')'])
    rw [hclose] at hdrop
    simpa using hdrop

lemma dropTargets_text (a : Written) : dropTargets a.text = a.untargeted.text := by
  have hstop : a.parenthesized.head?.any isTargetByte = false := by
    unfold parenthesized
    cases a.arguments with
    | none => rfl
    | some p => exact head?_gaps_isTargetByte p.1 (by simp; decide)
  rw [text, dropTargets_append_stop _ hstop, dropTargets_heading, dropTargets_parenthesized, text]

lemma dropTargets_texts (l : List (Written × Gaps)) :
    dropTargets (texts l) = texts (l.map fun p => (p.1.untargeted, p.2)) := by
  induction l with
  | nil => rfl
  | cons p l ih =>
    have hstop : (p.2.1 ++ texts l).head?.any isTargetByte = false := by
      refine head?_gaps_isTargetByte p.2 ?_
      cases l with
      | nil => rfl
      | cons q l => simp [texts, text, heading]; decide
    have htexts : ∀ (p : Written × Gaps) (l : List (Written × Gaps)),
        texts (p :: l) = p.1.text ++ (p.2.1 ++ texts l) := by simp [texts]
    rw [htexts, dropTargets_append_stop _ hstop, dropTargets_append (p.2.notMem (by decide)),
      dropTargets_text, ih, List.map_cons, htexts]

/-! ### Looking arguments up -/

lemma argument_untargeted (e : Entry) :
    e.untargeted.argument = ⟨e.argument.key, dropTargets e.argument.value⟩ := by
  cases e <;> rfl

lemma values_untargeted (a : Written) (key : Option Text) :
    a.untargeted.values key = (a.values key).map dropTargets := by
  have hentries : a.untargeted.entries = a.entries.map Entry.untargeted := by
    unfold entries untargeted
    cases a.arguments <;> simp
  have harguments : a.untargeted.entries.map Entry.argument =
      (a.entries.map Entry.argument).map fun x => ⟨x.key, dropTargets x.value⟩ := by
    rw [hentries, List.map_map, List.map_map]
    exact List.map_congr_left fun e _ => argument_untargeted e
  rw [values, harguments, List.filter_map, List.map_map, values, List.map_map]
  rfl

lemma named?_untargeted (a : Written) (key : Ident) :
    a.untargeted.mark.named? key.1 = (a.mark.named? key.1).map dropTargets := by
  rw [named?_mark, named?_mark, values_untargeted, List.head?_map]

lemma value?_untargeted (a : Written) :
    a.untargeted.mark.value? = a.mark.value?.map dropTargets := by
  have hnamed := a.named?_untargeted ⟨"value", by decide⟩
  have hpositional : a.untargeted.mark.positional? 0 = (a.mark.positional? 0).map dropTargets := by
    rw [positional?_mark, positional?_mark, values_untargeted, List.getElem?_map]
  rw [Mark.value?, hnamed, hpositional, ← Option.map_or, Mark.value?]

end Written

end DtoSchema.Mark

namespace DtoSchema.Constraints

open Text Source Declaration

/-! ### Strings -/

lemma Untargeted.getLast?_eq {s r : Text} (h : Untargeted s r) {b : UInt8} (hb : b ≠ ascii '@')
    (hlast : r.getLast? = some b) : s.getLast? = some b := by
  induction h with
  | nil => exact hlast
  | @target w s r _ _ ih =>
    have hne : r ≠ [] := by
      rintro rfl
      exact hb (by simpa using hlast.symm)
    rw [List.getLast?_cons_of_ne_nil hne] at hlast
    have hs := ih hlast
    have hsne : s ≠ [] := by
      rintro rfl
      simp at hs
    rwa [List.getLast?_cons_of_ne_nil (by simp [hsne]), List.getLast?_append_of_ne_nil _ hsne]
  | @stay c s r _ hrel ih =>
    cases hrel with
    | nil => exact hlast
    | target => exact ih (by simpa using hlast)
    | stay => simpa using ih (by simpa using hlast)

lemma Untargeted.length_le {s r : Text} (h : Untargeted s r) : r.length ≤ s.length := by
  induction h with
  | nil => exact le_rfl
  | target _ _ ih =>
    simp only [List.length_cons, List.length_append]
    omega
  | stay _ _ ih =>
    simp only [List.length_cons]
    omega

lemma dropTargets_inQuotes (t : Text) : dropTargets (inQuotes t) = inQuotes (dropTargets t) := by
  have hquote : ascii '@' ∉ [ascii '"'] := by decide
  have hfirst := dropTargets_append hquote (t ++ [ascii '"'])
  rw [dropTargets_append_stop t (by decide), dropTargets_of_notMem hquote] at hfirst
  exact hfirst

/-- A text is taken for a string with its targets and without them. -/
lemma stringLiteral?_dropTargets (v : Text) :
    stringLiteral? (dropTargets v) = (stringLiteral? v).map dropTargets := by
  refine Option.ext fun t => ?_
  rw [Option.map_eq_some_iff, stringLiteral?_eq_some_iff, trim_dropTargets]
  constructor
  · intro h
    have hhead : (trim v).head? = some (ascii '"') := by rw [← head?_dropTargets, h]; rfl
    obtain ⟨x, hx⟩ := List.head?_eq_some_iff.mp hhead
    have htail : dropTargets x = t ++ [ascii '"'] := by
      have hquote := dropTargets_append (by decide : ascii '@' ∉ [ascii '"']) x
      rw [List.singleton_append, ← hx, h] at hquote
      exact (List.cons.inj hquote).2.symm
    have hlast : x.getLast? = some (ascii '"') :=
      (untargeted_dropTargets x).getLast?_eq (by decide) (by rw [htail, List.getLast?_concat])
    obtain ⟨u, rfl⟩ := List.getLast?_eq_some_iff.mp hlast
    refine ⟨u, stringLiteral?_eq_some_iff.mpr hx, inQuotes_injective ?_⟩
    rw [← dropTargets_inQuotes, inQuotes, ← hx, h]
  · rintro ⟨u, hu, rfl⟩
    rw [stringLiteral?_eq_some_iff] at hu
    rw [hu, dropTargets_inQuotes]

/-- A text stays as it is exactly when it holds none of the targets. -/
lemma dropTargets_eq_self_iff {t : Text} :
    dropTargets t = t ↔ ∀ w ∈ transparent, ¬ ascii '@' :: w <:+: t := by
  constructor
  · rintro h w hw ⟨u, v, rfl⟩
    have hlen := congrArg List.length h
    have hu := (untargeted_dropTargets u).length_le
    have hv := (untargeted_dropTargets v).length_le
    have hpos : 0 < w.length := by
      rcases List.mem_pair.mp hw with rfl | rfl <;> decide
    rw [List.append_assoc, dropTargets_append_stop u (by simp; decide), List.cons_append,
      dropTargets_target (List.mem_pair.mp hw)] at hlen
    simp only [List.length_append, List.length_cons] at hlen
    omega
  · intro h
    induction t with
    | nil => rfl
    | cons b t ih =>
      rw [dropTargets_cons fun w hw hstart => h w hw hstart.isInfix,
        ih fun w hw hmid => h w hw (hmid.trans (List.suffix_cons b t).isInfix)]

end DtoSchema.Constraints

namespace DtoSchema.Mark

open Text Declaration Constraints

/-! ### Use sites -/

/-- A target that makes no difference, or none. -/
inductive UseSite where
  | plain
  | field
  | get

/-- The target as it is written. -/
def UseSite.target? : UseSite → Option Ident
  | plain => none
  | field => some ⟨"field", by decide⟩
  | get => some ⟨"get", by decide⟩

namespace Written

/-- The annotation with this target in place of its own. -/
def applied (a : Written) (site : UseSite) : Written := { a with target := site.target? }

/-- Annotations with their targets, each with the gaps behind it. -/
def textsOn (l : List (UseSite × Written × Gaps)) : Text :=
  texts (l.map fun p => (p.2.1.applied p.1, p.2.2))

lemma untargeted_applied (a : Written) (site : UseSite) :
    (a.applied site).untargeted = (a.applied .plain).untargeted := by
  cases site <;> rfl

/-- The annotations are the same for all targets once these are dropped. -/
lemma dropTargets_textsOn (l : List (UseSite × Written × Gaps)) :
    dropTargets (textsOn l) = texts (l.map fun p => ((p.2.1.applied .plain).untargeted, p.2.2)) := by
  rw [textsOn, dropTargets_texts, List.map_map]
  refine congrArg texts (List.map_congr_left fun p _ => ?_)
  simp only [Function.comp_apply, untargeted_applied]

end Written

end DtoSchema.Mark

namespace DtoSchema.Constraints

open Text Source Declaration Mark Written

/-! ### Constraints -/

/-- The dialects differ in the targets and in the name that comes first. -/
lemma ofKotlin_eq (s : Text) : ofKotlin s = { ofJava (dropTargets s) with
    rename := ((Mark.readAll (dropTargets s)).findSome? jsonNameOf?).getD
      (ofJava (dropTargets s)).rename } := by
  simp only [ofKotlin]
  cases (Mark.readAll (dropTargets s)).findSome? jsonNameOf? <;> rfl

/-- The text that an annotation gives between quotes, if it is one of the given name and the text is
not empty; `value` finds the argument. -/
def quoted (name : Text) (value : Mark → Option Text) (a : Mark) : Option Text :=
  if a.simpleName = name then ((value a).bind stringLiteral?).filter (!·.isEmpty) else none

lemma quoted_untargeted {a : Written} {value : Mark → Option Text}
    (hvalue : value (a.applied .plain).untargeted.mark = (value a.mark).map dropTargets)
    (name : Text) :
    quoted name value (a.applied .plain).untargeted.mark =
      (quoted name value a.mark).map dropTargets := by
  have hname : (a.applied .plain).untargeted.mark.simpleName = a.mark.simpleName := rfl
  unfold quoted
  rw [hname, hvalue]
  split
  · cases value a.mark with
    | none => rfl
    | some v =>
      simp only [Option.map_some, Option.bind_some, stringLiteral?_dropTargets]
      cases stringLiteral? v with
      | none => rfl
      | some t =>
        have hempty := (untargeted_dropTargets t).isEmpty_eq
        cases ht : t.isEmpty <;> simp [Option.filter, hempty, ht]
  · rfl

/-- What one annotation without a target says about a value. -/
lemma IsKept.single_of_target {α : Type} {r : Role} {value : Constraints → Option α}
    (h : IsKept r value) {name : Text} (hname : Role.names.lookup name = some r)
    (huniq : ∀ p ∈ Role.names, p.2 = r → p.1 = name) {a : Mark} (ha : a.target = []) :
    value (single a) = if a.simpleName = name then value (r.contribution a) else none := by
  have hof : Role.of? a = Role.names.lookup a.simpleName := by simp [Role.of?, ha]
  split
  · next hsimple => rw [h.single_eq (by rw [hof, hsimple, hname])]
  · next hsimple =>
    exact (h.role a).resolve_right fun hr => hsimple (huniq _ (mem_names_of_of? hr) rfl)

/-- A text of the constraints is the first one that stands between quotes, without the targets in
it. -/
lemma IsKept.textsOn {r : Role} {value : Constraints → Option Text} (h : IsKept r value)
    {name : Text} (hname : Role.names.lookup name = some r)
    (huniq : ∀ p ∈ Role.names, p.2 = r → p.1 = name) {argument : Mark → Option Text}
    (hcontribution : ∀ a, value (r.contribution a) =
      ((argument a).bind stringLiteral?).filter (!·.isEmpty))
    (hargument : ∀ a : Written, argument (a.applied .plain).untargeted.mark =
      (argument a.mark).map dropTargets) (l : List (UseSite × Written × Gaps)) :
    value (ofJava (dropTargets (textsOn l))) =
      (l.findSome? fun p => quoted name argument p.2.1.mark).map dropTargets := by
  have hsingle : ∀ a : Written, value (single (a.applied .plain).untargeted.mark) =
      (quoted name argument a.mark).map dropTargets := by
    intro a
    rw [← quoted_untargeted (hargument a), quoted, ← hcontribution]
    exact h.single_of_target hname huniq rfl
  rw [ofJava, h.foldl_add, dropTargets_textsOn, readAll_texts, List.map_map, List.findSome?_map,
    List.map_findSome?]
  simp only [Function.comp_def, hsingle]

lemma text?_getD (o : Option Text) : text? (o.getD []) = o.filter (!·.isEmpty) := by
  cases o with
  | none => rfl
  | some t => cases t <;> rfl

lemma map_text_decimalOf? (a : Mark) :
    (decimalOf? a).map (·.text) = (a.value?.bind stringLiteral?).filter (!·.isEmpty) := by
  unfold decimalOf?
  cases a.value?.bind stringLiteral? with
  | none => rfl
  | some t => cases t <;> rfl

lemma IsKept.boundText {r : Role} {value : Constraints → Option DecimalBound} (h : IsKept r value) :
    IsKept r fun c => (value c).map (·.text) where
  raw texts := by rw [h.raw, Option.map_none]
  merge c d := by rw [h.merge, Option.map_or]
  role a := (h.role a).imp_left fun hnone => by rw [hnone, Option.map_none]

/-- Whatever targets the annotations of a list have, the constraints are those of the list without
targets.  Their texts are the first usable ones that stand between quotes in the source, without the
targets in them, so they are the same byte for byte exactly if they hold none. -/
theorem ofKotlin_textsOn (l : List (UseSite × Written × Gaps)) :
    ofKotlin (textsOn l) = ofKotlin (textsOn (l.map fun p => (.plain, p.2))) ∧
      text? (ofKotlin (textsOn l)).pattern =
        (l.findSome? fun p => quoted "Pattern" (·.named? "regexp") p.2.1.mark).map dropTargets ∧
      (ofKotlin (textsOn l)).decimalMin.map (·.text) =
        (l.findSome? fun p => quoted "DecimalMin" Mark.value? p.2.1.mark).map dropTargets ∧
      (ofKotlin (textsOn l)).decimalMax.map (·.text) =
        (l.findSome? fun p => quoted "DecimalMax" Mark.value? p.2.1.mark).map dropTargets ∧
      ∀ t, dropTargets t = t ↔ ¬ utf8 "@field:" <:+: t ∧ ¬ utf8 "@get:" <:+: t := by
  have hregexp : ∀ a : Written, (a.applied .plain).untargeted.mark.named? "regexp" =
      (a.mark.named? "regexp").map dropTargets :=
    fun a => (a.applied .plain).named?_untargeted ⟨"regexp", by decide⟩
  have hvalue : ∀ a : Written, (a.applied .plain).untargeted.mark.value? =
      a.mark.value?.map dropTargets := fun a => (a.applied .plain).value?_untargeted
  refine ⟨?_, ?_, ?_, ?_, fun t => ?_⟩
  · simp only [ofKotlin_eq, dropTargets_textsOn, List.map_map, Function.comp_def]
  · rw [ofKotlin_eq]
    exact isKept_pattern.textsOn rfl (by decide) (fun a => text?_getD _) hregexp l
  · rw [ofKotlin_eq]
    exact isKept_decimalMin.boundText.textsOn rfl (by decide) map_text_decimalOf? hvalue l
  · rw [ofKotlin_eq]
    exact isKept_decimalMax.boundText.textsOn rfl (by decide) map_text_decimalOf? hvalue l
  · have hfield : utf8 "@field:" = ascii '@' :: utf8 "field:" := by decide
    have hget : utf8 "@get:" = ascii '@' :: utf8 "get:" := by decide
    rw [dropTargets_eq_self_iff, hfield, hget, transparent, List.forall_mem_cons,
      List.forall_mem_singleton]

/-- A target inside of a string is dropped from the pattern. -/
theorem ofKotlin_target_in_string :
    (ofKotlin "@Pattern(regexp = \"@get:x\")").pattern = utf8 "@x" ∧
      (ofJava "@Pattern(regexp = \"@get:x\")").pattern = utf8 "@get:x" := by
  decide +kernel

end DtoSchema.Constraints
