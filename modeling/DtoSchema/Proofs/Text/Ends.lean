import DtoSchema.Proofs.Text.WhiteSpace

/-!
# White space at the ends of a text

A text is what trimming leaves of it and a run of white space (`exists_append_space`), and trimming
does not see such runs (`trimStart_space`, `trimEnd_space`).  A text that does not start inside a
character is trimmed at its start apart from what stands before it (`trimStart_append`), and behind
a visible byte a text is trimmed at its end apart from it (`trimEnd_append_ink`).
-/

namespace DtoSchema.Text

/-! ### Characters -/

/-- The bytes that stand inside a character. -/
def isContinuation (b : UInt8) : Bool := 0x80 ≤ b && b < 0xc0

/-- Each of the encodings is one of a character, and none starts with another one. -/
def areCharacters (encodings : List Text) : Bool :=
  isCode encodings && encodings.all (·.tail.all isContinuation)

lemma areCharacters_spaces : areCharacters spaces := by decide

/-- A text that does not start inside a character completes none. -/
lemma leadingWidth_append_of_head? {encodings : List Text} (henc : areCharacters encodings)
    {s t : Text} (hne : s ≠ []) (hzero : leadingWidth encodings s = 0)
    (ht : t.head?.any isContinuation = false) : leadingWidth encodings (s ++ t) = 0 := by
  obtain ⟨hcode, hall⟩ := Bool.and_eq_true_iff.mp henc
  rcases leadingWidth_cases hcode (s ++ t) with ⟨h, -⟩ | ⟨e, he, r, hpos, heq⟩
  · exact h
  have hwidth : ∀ v, s ≠ e ++ v := by
    rintro v rfl
    rw [leadingWidth_append hcode he] at hzero
    exact hpos (List.length_eq_zero_iff.mp hzero)
  rcases List.append_eq_append_iff.mp heq with ⟨c, rfl, hc⟩ | ⟨v, hv, -⟩
  · cases c with
    | nil => exact absurd (by simp) (hwidth [])
    | cons b c =>
      -- the byte at which `t` starts would stand inside a character
      obtain ⟨d, s, rfl⟩ := List.exists_cons_of_ne_nil hne
      have hinside := List.all_eq_true.mp hall _ he
      simp only [List.cons_append, List.tail_cons, List.all_append, List.all_cons,
        Bool.and_eq_true] at hinside
      simp [hc, hinside] at ht
  · exact absurd hv (hwidth v)

/-- A text that does not start inside a character is trimmed apart from what stands before it. -/
lemma trimStart_append (s : Text) {t : Text} (ht : t.head?.any isContinuation = false) :
    trimStart (s ++ t) = if trimStart s = [] then trimStart t else trimStart s ++ t := by
  induction hn : s.length using Nat.strong_induction_on generalizing s with
  | _ n ih =>
    rcases leadingWidth_cases isCode_spaces s with ⟨hzero, -⟩ | ⟨e, he, r, hpos, rfl⟩
    · by_cases hne : s = []
      · subst hne
        rfl
      · have hwidth := leadingWidth_append_of_head? areCharacters_spaces hne hzero ht
        rw [trimStart, trimStart, dropLeading_stay hzero, dropLeading_stay hwidth, if_neg hne]
    · have hpass : ∀ u : Text, trimStart (e ++ u) = trimStart u :=
        dropLeading_append isCode_spaces he hpos
      have hlength := List.length_pos_iff.mpr hpos
      simp only [List.length_append] at hn
      rw [List.append_assoc, hpass, hpass, ih r.length (by omega) r rfl]

/-! ### Runs of white space -/

/-- The text is a run of white space. -/
inductive IsSpace : Text → Prop
  | nil : IsSpace []
  | char {e w : Text} : e ∈ spaces → IsSpace w → IsSpace (e ++ w)

lemma isSpace_of_isGap {g : Text} (hg : g.all isGap) : IsSpace g := by
  induction g with
  | nil => exact .nil
  | cons b g ih =>
    rw [List.all_cons, Bool.and_eq_true] at hg
    exact .char (mem_spaces_of_isGap hg.1) (ih hg.2)

lemma ne_nil_of_mem_spaces {e : Text} (he : e ∈ spaces) : e ≠ [] := by
  revert e
  decide

lemma IsSpace.append {w w' : Text} (hw : IsSpace w) (hw' : IsSpace w') : IsSpace (w ++ w') := by
  induction hw with
  | nil => exact hw'
  | char he _ ih =>
    rw [List.append_assoc]
    exact .char he ih

/-- No white space character holds a visible byte. -/
lemma notMem_spaces {b : UInt8} (hb : isInk b) {e : Text} (he : e ∈ spaces) : b ∉ e := by
  have hall : spaces.all (·.all (!isInk ·)) := by decide
  intro hmem
  have h := List.all_eq_true.mp (List.all_eq_true.mp hall e he) b hmem
  simp [hb] at h

lemma IsSpace.notMem {w : Text} (hw : IsSpace w) {b : UInt8} (hb : isInk b) : b ∉ w := by
  induction hw with
  | nil => simp
  | char he _ ih =>
    rw [List.mem_append, not_or]
    exact ⟨notMem_spaces hb he, ih⟩

lemma IsSpace.isInk_of_mem {w : Text} (hw : IsSpace w) {b : UInt8} (hb : b ∈ w) :
    isInk b = false :=
  Bool.eq_false_iff.mpr fun hink => hw.notMem hink hb

lemma IsSpace.all_not_isInk {w : Text} (hw : IsSpace w) : w.all (!isInk ·) :=
  List.all_eq_true.mpr fun _ hb => by simp [hw.isInk_of_mem hb]

lemma trimStart_space {w : Text} (hw : IsSpace w) (s : Text) :
    trimStart (w ++ s) = trimStart s := by
  induction hw with
  | nil => rfl
  | char he _ ih =>
    rw [List.append_assoc, ← ih]
    exact dropLeading_append isCode_spaces he (ne_nil_of_mem_spaces he) _

lemma trimEnd_append_char {e : Text} (he : e ∈ spaces) (s : Text) :
    trimEnd (s ++ e) = trimEnd s := by
  have hmem : e.reverse ∈ spaces.map List.reverse := List.mem_map_of_mem he
  have hne : e.reverse ≠ [] := by simpa using ne_nil_of_mem_spaces he
  rw [trimEnd, List.reverse_append, dropLeading_append isCode_reversed hmem hne, trimEnd]

lemma trimEnd_space {w : Text} (hw : IsSpace w) (s : Text) : trimEnd (s ++ w) = trimEnd s := by
  induction hw generalizing s with
  | nil => rw [List.append_nil]
  | char he _ ih => rw [← List.append_assoc, ih, trimEnd_append_char he]

/-- A text is white space, followed by what trimming its start leaves. -/
lemma exists_space_append (s : Text) : ∃ w, s = w ++ trimStart s ∧ IsSpace w := by
  induction hn : s.length using Nat.strong_induction_on generalizing s with
  | _ n ih =>
    rcases leadingWidth_cases isCode_spaces s with ⟨hzero, -⟩ | ⟨e, he, t, hne, rfl⟩
    · exact ⟨[], by rw [trimStart, dropLeading_stay hzero]; rfl, .nil⟩
    · have hpos := List.length_pos_iff.mpr hne
      simp only [List.length_append] at hn
      obtain ⟨w, hw, hspace⟩ := ih t.length (by omega) t rfl
      refine ⟨e ++ w, ?_, .char he hspace⟩
      rw [trimStart, dropLeading_append isCode_spaces he hne, List.append_assoc, ← trimStart, ← hw]

/-- A text is what trimming its end leaves, followed by white space. -/
lemma exists_append_space (s : Text) : ∃ w, s = trimEnd s ++ w ∧ IsSpace w := by
  induction hn : s.length using Nat.strong_induction_on generalizing s with
  | _ n ih =>
    rcases leadingWidth_cases isCode_reversed s.reverse with ⟨hzero, -⟩ | ⟨e, he, t, hne, heq⟩
    · refine ⟨[], ?_, .nil⟩
      rw [trimEnd, dropLeading_stay hzero, List.reverse_reverse, List.append_nil]
    · obtain ⟨e, hmem, rfl⟩ := List.mem_map.mp he
      obtain rfl : s = t.reverse ++ e := by
        rw [← List.reverse_reverse s, heq, List.reverse_append, List.reverse_reverse]
      have hpos := List.length_pos_iff.mpr (ne_nil_of_mem_spaces hmem)
      simp only [List.length_append, List.length_reverse] at hn
      obtain ⟨w, hw, hspace⟩ := ih t.length (by omega) t.reverse (by simp)
      refine ⟨w ++ e, ?_, hspace.append (by simpa using IsSpace.char hmem .nil)⟩
      rw [trimEnd_append_char hmem, ← List.append_assoc, ← hw]

lemma IsSpace.head? {w : Text} (hw : IsSpace w) : w.head?.any isContinuation = false := by
  have hhead : ∀ e ∈ spaces, e.head?.any isContinuation = false := by decide
  cases hw with
  | nil => rfl
  | @char e w he _ =>
    rw [List.head?_append_of_ne_nil _ (ne_nil_of_mem_spaces he)]
    exact hhead e he

lemma IsSpace.trimStart_eq_nil {w : Text} (hw : IsSpace w) : trimStart w = [] := by
  rw [← List.append_nil w, trimStart_space hw]
  rfl

lemma trim_append_space {w : Text} (hw : IsSpace w) (s : Text) : trim (s ++ w) = trim s := by
  have hblank := hw.trimStart_eq_nil
  rw [trim, trimStart_append s hw.head?, trim]
  split
  · next hs => rw [hblank, hs]
  · exact trimEnd_space hw _

/-- What trimming the end leaves starts like the text. -/
lemma head?_trimEnd {s : Text} (hne : trimEnd s ≠ []) : (trimEnd s).head? = s.head? := by
  obtain ⟨v, hv⟩ := trimEnd_isPrefix s
  conv_rhs => rw [← hv, List.head?_append_of_ne_nil _ hne]

lemma trimEnd_trimEnd (s : Text) : trimEnd (trimEnd s) = trimEnd s := by
  obtain ⟨w, hw, hspace⟩ := exists_append_space s
  conv_rhs => rw [hw, trimEnd_space hspace]

/-! ### Visible bytes -/

lemma isContinuation_of_isInk {b : UInt8} (hb : isInk b) : isContinuation b = false := by
  simp only [isInk, Bool.and_eq_true, decide_eq_true_eq, UInt8.le_iff_toNat_le] at hb
  have hlt : ¬ (0x80 : UInt8) ≤ b := by
    rw [UInt8.le_iff_toNat_le]
    have hbound : (0x7e : UInt8).toNat = 0x7e ∧ (0x80 : UInt8).toNat = 0x80 := ⟨rfl, rfl⟩
    omega
  simp [isContinuation, hlt]

/-- What stands before a visible byte is not trimmed at the end. -/
lemma trimEnd_append_ink {k : UInt8} (hk : isInk k) (s x : Text) :
    trimEnd (s ++ k :: x) = s ++ k :: trimEnd x := by
  induction s with
  | nil =>
    rw [List.nil_append, trimEnd_cons, if_neg fun h => notMem_spaces hk h (by simp)]
    rfl
  | cons b s ih =>
    rw [List.cons_append, trimEnd_cons, ih, if_neg fun h => notMem_spaces hk h (by simp)]
    rfl

lemma trim_append_ink {k : UInt8} (hk : isInk k) (s x : Text) :
    trim (s ++ k :: x) = trimStart s ++ k :: trimEnd x := by
  rw [trim, trimStart_append s (by simpa using isContinuation_of_isInk hk), trimStart_ink hk]
  split
  · next hnil => rw [hnil, ← List.nil_append (k :: x), trimEnd_append_ink hk]
  · exact trimEnd_append_ink hk _ x

/-- What stands before a gap is not trimmed at the end if something visible follows. -/
lemma trimEnd_append_gap {g : UInt8} (hg : isGap g) {s : Text} (hne : trimEnd s ≠ []) (a : Text) :
    trimEnd (a ++ g :: s) = a ++ g :: trimEnd s := by
  have hmem : ∀ e ∈ spaces, g ∈ e → e = [g] := by
    simp only [isGap, Bool.or_eq_true, beq_iff_eq] at hg
    rcases hg with (((rfl | rfl) | rfl) | rfl) | rfl <;> decide
  have hspaces : ∀ b : Text, b ++ g :: trimEnd s ∉ spaces := by
    intro b hb
    have heq := hmem _ hb (by simp)
    cases b with
    | nil => exact hne (List.cons.inj heq).2
    | cons c b => simpa using (List.cons.inj heq).2
  induction a with
  | nil =>
    rw [List.nil_append, trimEnd_cons]
    exact if_neg (hspaces [])
  | cons b a ih =>
    rw [List.cons_append, trimEnd_cons, ih]
    exact if_neg (hspaces (b :: a))

lemma trimEnd_of_trim {s : Text} (h : trim s = s) : trimEnd s = s := by
  rw [← h, trim, trimEnd_trimEnd]

lemma trimEnd_gaps_append {g s : Text} (hg : g.all isGap) (hne : s ≠ []) (h : trimEnd s = s) :
    trimEnd (g ++ s) = g ++ s := by
  cases g using List.reverseRecOn with
  | nil => exact h
  | append_singleton g b =>
    rw [List.all_append, Bool.and_eq_true] at hg
    rw [List.append_assoc, List.singleton_append,
      trimEnd_append_gap (by simpa using hg.2) (by rwa [h]), h]

/-- The end of a trimmed text is trimmed. -/
lemma trimEnd_of_isSuffix {s t : Text} (hs : trimEnd s = s) (h : t <:+ s) : trimEnd t = t := by
  have hzero := not_prefix_dropLeading isCode_reversed s.reverse
  have hself : dropLeading (spaces.map List.reverse) s.reverse = s.reverse := by
    rw [← List.reverse_inj, List.reverse_reverse]
    exact hs
  rw [hself] at hzero
  rcases leadingWidth_cases isCode_reversed t.reverse with ⟨h, -⟩ | ⟨e, he, r, -, heq⟩
  · rw [trimEnd, dropLeading_stay h, List.reverse_reverse]
  · have hstart : e <+: t.reverse := ⟨r, heq.symm⟩
    exact absurd (hstart.trans (List.reverse_prefix.mpr h)) (hzero e he)

end DtoSchema.Text
