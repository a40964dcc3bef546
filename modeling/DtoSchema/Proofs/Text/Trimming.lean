import Mathlib
import DtoSchema.Text.Space

/-!
# Prefixes, trimming and collapsing

What the elementary text operations do on texts whose bytes are visible ASCII characters and single
spaces, which is how declarations are printed.

A visible byte starts and ends no encoding of a white space character, so `trim` leaves a text alone
that starts and ends with visible bytes, and `collapse` leaves a text alone in which single spaces
separate runs of visible bytes.
-/

namespace DtoSchema.Text

/-! ### The bytes of short texts -/

lemma utf8_space : utf8 " " = [ascii ' '] := by decide
lemma utf8_newline : utf8 "\n" = [ascii '\n'] := by decide
lemma utf8_dot : utf8 "." = [ascii '.'] := by decide
lemma utf8_colon : utf8 ":" = [ascii ':'] := by decide
lemma utf8_at : utf8 "@" = [ascii '@'] := by decide
lemma utf8_commaSpace : utf8 ", " = [ascii ',', ascii ' '] := by decide
lemma utf8_openParen : utf8 "(" = [ascii '('] := by decide
lemma utf8_closeParen : utf8 ")" = [ascii ')'] := by decide
lemma utf8_openAngle : utf8 "<" = [ascii '<'] := by decide
lemma utf8_closeAngle : utf8 ">" = [ascii '>'] := by decide
lemma utf8_fieldTarget : utf8 "@field:" = ascii '@' :: utf8 "field:" := by decide
lemma utf8_getTarget : utf8 "@get:" = ascii '@' :: utf8 "get:" := by decide
lemma utf8_pair : utf8 "[]" = [ascii '[', ascii ']'] := by decide

/-! ### Prefixes -/

/-- A text is recognised after a prefix exactly when it is the prefix followed by the answer. -/
lemma afterPrefix?_eq_some_iff {p s r : Text} : afterPrefix? p s = some r ↔ s = p ++ r := by
  induction p generalizing s with
  | nil => simp [afterPrefix?, eq_comm]
  | cons a p ih =>
    cases s with
    | nil => simp [afterPrefix?]
    | cons b s =>
      by_cases h : a = b
      · simp [afterPrefix?, h, ih]
      · simp [afterPrefix?, h, Ne.symm h]

/-- A prefix is recognised in front of every text. -/
@[simp] lemma afterPrefix?_append (p s : Text) : afterPrefix? p (p ++ s) = some s :=
  afterPrefix?_eq_some_iff.mpr rfl

/-- Two ways to read a text as a run of the class `part` and a rest that does not go on with it are
the same way. -/
lemma run_append_inj {part : UInt8 → Bool} {u v s t : Text} (hu : u.all part) (hv : v.all part)
    (hs : s.head?.any part = false) (ht : t.head?.any part = false) (h : u ++ s = v ++ t) :
    u = v ∧ s = t := by
  have key : ∀ {w r : Text}, w.all part → r.head?.any part = false →
      (w ++ r).takeWhile part = w := by
    intro w r hw hr
    rw [List.takeWhile_append_of_pos (by simpa using hw)]
    cases r with
    | nil => simp
    | cons b r => simp_all
  have huv : u = v := by rw [← key hu hs, h, key hv ht]
  subst huv
  exact ⟨rfl, List.append_cancel_left h⟩

lemma cut?_eq_none {c : UInt8} {s : Text} (hs : c ∉ s) : cut? c s = none := by
  induction s with
  | nil => rfl
  | cons b s ih =>
    obtain ⟨hb, hs⟩ : c ≠ b ∧ c ∉ s := by simpa using hs
    rw [cut?, if_neg (Ne.symm hb), ih hs, Option.map_none]

/-- A text is cut at the first byte that is looked for. -/
lemma cut?_append_cons {c : UInt8} {s : Text} (hs : c ∉ s) (t : Text) :
    cut? c (s ++ c :: t) = some (s, t) := by
  induction s with
  | nil => simp [cut?]
  | cons b s ih =>
    obtain ⟨hb, hs⟩ : c ≠ b ∧ c ∉ s := by simpa using hs
    rw [List.cons_append, cut?, if_neg (Ne.symm hb), ih hs, Option.map_some]

/-- The first two of several texts that are joined. -/
lemma join_cons_cons (sep p q : Text) (qs : List Text) :
    join sep (p :: q :: qs) = p ++ sep ++ join sep (q :: qs) :=
  List.intercalate_cons_cons

/-- A text starts as its first part does. -/
lemma head?_append_any {p : UInt8 → Bool} {s : Text} (h : s.head?.any p) (t : Text) :
    (s ++ t).head?.any p := by
  cases s with
  | nil => simp at h
  | cons b s => exact h

/-- A text starts with no byte with which none of its parts starts. -/
lemma head?_append_ne {c : UInt8} {s t : Text} (hs : s.head? ≠ some c) (ht : t.head? ≠ some c) :
    (s ++ t).head? ≠ some c := by
  cases s with
  | nil => exact ht
  | cons b s => exact hs

/-- A text ends as its last part does. -/
lemma getLast?_append_any {p : UInt8 → Bool} {t : Text} (s : Text) (h : t.getLast?.any p) :
    (s ++ t).getLast?.any p := by
  cases t using List.reverseRecOn with
  | nil => simp at h
  | append_singleton t b => simpa using h

/-- What holds of the last part of a joined list holds of the list. -/
lemma getLast?_join {p : UInt8 → Bool} {sep : Text} {parts : List Text} (hne : parts ≠ [])
    (h : ∀ q ∈ parts, q.getLast?.any p) : (join sep parts).getLast?.any p := by
  induction parts with
  | nil => exact absurd rfl hne
  | cons q qs ih =>
    obtain ⟨hq, hqs⟩ := List.forall_mem_cons.mp h
    cases qs with
    | nil => simpa [join] using hq
    | cons r rs =>
      rw [join_cons_cons]
      exact getLast?_append_any _ (ih (by simp) hqs)

/-- The bytes of a joined list are those of its parts and of the separator. -/
lemma all_join {p : UInt8 → Bool} {sep : Text} (hsep : sep.all p) {parts : List Text}
    (h : ∀ q ∈ parts, q.all p) : (join sep parts).all p := by
  induction parts with
  | nil => rfl
  | cons q qs ih =>
    obtain ⟨hq, hqs⟩ := List.forall_mem_cons.mp h
    cases qs with
    | nil => simpa [join] using hq
    | cons r rs =>
      rw [join_cons_cons, List.all_append, List.all_append, hq, hsep, ih hqs]
      rfl

/-! ### Visible bytes -/

/-- The visible ASCII characters. -/
def isInk (b : UInt8) : Bool := 0x21 ≤ b && b ≤ 0x7e

/-- A byte of a class differs from a byte outside of it. -/
lemma ne_of_class {p : UInt8 → Bool} {b c : UInt8} (hb : p b) (hc : p c = false) : b ≠ c := by
  rintro rfl
  simp [hb] at hc

/-- A byte of a class is none of the bytes outside of it. -/
lemma notMem_of_class {p : UInt8 → Bool} {l : Text} (hl : l.all (!p ·)) {b : UInt8} (hb : p b) :
    b ∉ l := by
  intro hmem
  have hnot := List.all_eq_true.mp hl b hmem
  simp [hb] at hnot

/-- A text of bytes of a class is one of bytes of every greater class. -/
lemma all_mono {p q : UInt8 → Bool} (h : ∀ b, p b = true → q b = true) {s : Text} (hs : s.all p) :
    s.all q :=
  List.all_eq_true.mpr fun b hb => h b (List.all_eq_true.mp hs b hb)

/-- The bytes of identifiers are visible. -/
lemma isInk_of_isIdentPart {b : UInt8} (h : isIdentPart b) : isInk b := by
  revert b
  decide +kernel

/-- The bytes that start identifiers are visible. -/
lemma isInk_of_isIdentStart {b : UInt8} (h : isIdentStart b) : isInk b :=
  isInk_of_isIdentPart (by simp [isIdentPart, h])

/-- The bytes of words continue identifiers. -/
lemma isIdentPart_of_isWord {b : UInt8} (h : isWord b) : isIdentPart b := by
  simp only [isWord, isIdentPart, isIdentStart, Bool.or_eq_true] at h ⊢
  tauto

/-- The bytes of words are visible. -/
lemma isInk_of_isWord {b : UInt8} (h : isWord b) : isInk b :=
  isInk_of_isIdentPart (isIdentPart_of_isWord h)

/-- A gap is not visible. -/
lemma isInk_of_isGap {b : UInt8} (hb : isGap b) : isInk b = false := by
  simp only [isGap, Bool.or_eq_true, beq_iff_eq] at hb
  rcases hb with (((rfl | rfl) | rfl) | rfl) | rfl <;> decide

/-- A visible byte is no gap. -/
lemma isGap_of_isInk {b : UInt8} (h : isInk b) : isGap b = false :=
  Bool.eq_false_iff.mpr fun hb => by simp [isInk_of_isGap hb] at h

/-- None of the encodings starts with a visible byte. -/
def areBlank (encodings : List Text) : Bool := encodings.all fun e => e.head?.any (!isInk ·)

/-- A text that starts with a visible byte starts with none of the blank encodings. -/
lemma leadingWidth_ink {encodings : List Text} (h : areBlank encodings) {b : UInt8}
    (hb : isInk b) (s : Text) : leadingWidth encodings (b :: s) = 0 := by
  have hnone : encodings.find? (·.isPrefixOf (b :: s)) = none := by
    rw [List.find?_eq_none]
    intro e he
    have hhead := List.all_eq_true.mp h e he
    cases e with
    | nil => simp at hhead
    | cons c e =>
      have hcb : c ≠ b := by
        rintro rfl
        simp [hb] at hhead
      simp [List.isPrefixOf, hcb]
  simp [leadingWidth, hnone]

/-- No white space character starts with a visible byte. -/
lemma areBlank_spaces : areBlank spaces := by decide

/-- No white space character ends with a visible byte. -/
lemma areBlank_reversed : areBlank (spaces.map List.reverse) := by decide

/-- A space is white space of width one. -/
lemma leadingWidth_spaces_blank (s : Text) : leadingWidth spaces (ascii ' ' :: s) = 1 := rfl

/-! ### Trimming -/

/-- The text neither starts nor ends with anything but a visible byte. -/
def isTrimmed (s : Text) : Bool := s.head?.all isInk && s.getLast?.all isInk

/-- The text starts and ends with visible bytes. -/
def isSolid (s : Text) : Bool := s.head?.any isInk && s.getLast?.any isInk

lemma isSolid_iff {s : Text} : isSolid s ↔ s.head?.any isInk ∧ s.getLast?.any isInk := by
  rw [isSolid, Bool.and_eq_true]

/-- A text that starts and ends with visible bytes is not empty, and there is nothing to trim. -/
lemma isTrimmed_of_isSolid {s : Text} (h : isSolid s) : s ≠ [] ∧ isTrimmed s := by
  rw [isSolid_iff] at h
  have hne : s ≠ [] := by
    rintro rfl
    simp at h
  simp only [isTrimmed, Bool.and_eq_true, List.head?_eq_some_head hne,
    List.getLast?_eq_some_getLast hne] at h ⊢
  exact ⟨hne, h⟩

/-- Two texts together start as the first one and end as the second one. -/
lemma isSolid_append {s t : Text} (hs : s.head?.any isInk) (ht : t.getLast?.any isInk) :
    isSolid (s ++ t) :=
  isSolid_iff.mpr ⟨head?_append_any hs t, getLast?_append_any s ht⟩

/-- Trimming at the start stops at a visible byte. -/
lemma trimStart_ink {b : UInt8} (hb : isInk b) (s : Text) : trimStart (b :: s) = b :: s := by
  simp [trimStart, dropLeading, dropLeadingFrom, leadingWidth_ink areBlank_spaces hb]

/-- Trimming at the start removes a space. -/
@[simp] lemma trimStart_blank (s : Text) : trimStart (ascii ' ' :: s) = trimStart s := by
  simp [trimStart, dropLeading, dropLeadingFrom, leadingWidth_spaces_blank]

/-- Trimming at the end stops at a visible byte. -/
lemma trimEnd_ink {b : UInt8} (hb : isInk b) (s : Text) : trimEnd (s ++ [b]) = s ++ [b] := by
  simp [trimEnd, dropLeading, dropLeadingFrom, leadingWidth_ink areBlank_reversed hb]

/-- A text that ends with a visible byte has nothing to trim at its end. -/
lemma trimEnd_eq_self {s : Text} (h : s.getLast?.all isInk) : trimEnd s = s := by
  induction s using List.reverseRecOn with
  | nil => rfl
  | append_singleton s b _ => exact trimEnd_ink (by simpa using h) s

/-- A text with a visible byte as its last one has nothing to trim at its end. -/
lemma trimEnd_of_getLast? {s : Text} (h : s.getLast?.any isInk) : trimEnd s = s := by
  cases s using List.reverseRecOn with
  | nil => rfl
  | append_singleton s b => exact trimEnd_ink (by simpa using h) s

/-- A text that starts with a visible byte has nothing to trim at its start. -/
lemma trimStart_eq_self {s : Text} (h : s.head?.all isInk) : trimStart s = s := by
  cases s with
  | nil => rfl
  | cons b s => exact trimStart_ink (by simpa using h) s

/-- A text that starts and ends with visible bytes is its own trimming. -/
lemma trim_eq_self {s : Text} (h : isTrimmed s) : trim s = s := by
  simp only [isTrimmed, Bool.and_eq_true] at h
  rw [trim, trimStart_eq_self h.1, trimEnd_eq_self h.2]

/-- Trimming removes a space at the start. -/
@[simp] lemma trim_blank (s : Text) : trim (ascii ' ' :: s) = trim s := by
  simp [trim]

/-- Trimming at the end removes a space. -/
@[simp] lemma trimEnd_blank (s : Text) : trimEnd (s ++ [ascii ' ']) = trimEnd s := by
  have hwidth : ∀ t : Text, leadingWidth (spaces.map List.reverse) (ascii ' ' :: t) = 1 :=
    fun _ => rfl
  simp [trimEnd, dropLeading, dropLeadingFrom, hwidth]

/-- Trimming removes the spaces behind a text that starts and ends visibly. -/
lemma trim_append_spaces {s : Text} (h : isTrimmed s) (n : ℕ) :
    trim (s ++ List.replicate n (ascii ' ')) = s := by
  cases hs : s with
  | nil =>
    induction n with
    | zero => rfl
    | succ n ih => simpa [List.replicate_succ] using ih
  | cons b t =>
    have hend : trimEnd (s ++ List.replicate n (ascii ' ')) = trimEnd s := by
      induction n with
      | zero => simp
      | succ n ih => rw [List.replicate_succ', ← List.append_assoc, trimEnd_blank, ih]
    simp only [isTrimmed, Bool.and_eq_true] at h
    have hstart : trimStart (s ++ List.replicate n (ascii ' ')) =
        s ++ List.replicate n (ascii ' ') := trimStart_eq_self (by simpa [hs] using h.1)
    rw [← hs, trim, hstart, hend, trimEnd_eq_self h.2]

/-- Every gap is white space of width one. -/
lemma leadingWidth_spaces_gap {b : UInt8} (hb : isGap b) (s : Text) :
    leadingWidth spaces (b :: s) = 1 := by
  simp only [isGap, Bool.or_eq_true, beq_iff_eq] at hb
  rcases hb with (((rfl | rfl) | rfl) | rfl) | rfl <;> rfl

/-- Trimming at the start removes gaps. -/
lemma trimStart_gaps {g : Text} (hg : g.all isGap) (s : Text) :
    trimStart (g ++ s) = trimStart s := by
  induction g with
  | nil => rfl
  | cons b g ih =>
    simp only [List.all_cons, Bool.and_eq_true] at hg
    have hdrop : trimStart (b :: (g ++ s)) = trimStart (g ++ s) := by
      simp [trimStart, dropLeading, dropLeadingFrom, leadingWidth_spaces_gap hg.1]
    rw [List.cons_append, hdrop, ih hg.2]

/-- Trimming at the end removes gaps. -/
lemma trimEnd_gaps {g : Text} (hg : g.all isGap) (s : Text) : trimEnd (s ++ g) = trimEnd s := by
  have hwidth : ∀ b, isGap b = true → ∀ t : Text,
      leadingWidth (spaces.map List.reverse) (b :: t) = 1 := by
    intro b hb t
    simp only [isGap, Bool.or_eq_true, beq_iff_eq] at hb
    rcases hb with (((rfl | rfl) | rfl) | rfl) | rfl <;> rfl
  induction g using List.reverseRecOn with
  | nil => rw [List.append_nil]
  | append_singleton g b ih =>
    simp only [List.all_append, List.all_cons, List.all_nil, Bool.and_true, Bool.and_eq_true] at hg
    have hdrop : trimEnd (s ++ g ++ [b]) = trimEnd (s ++ g) := by
      simp [trimEnd, dropLeading, dropLeadingFrom, hwidth b hg.2]
    rw [← List.append_assoc, hdrop, ih hg.1]

/-- Trimming removes the gaps around a text that starts and ends visibly. -/
lemma trim_gaps {g s h : Text} (hg : g.all isGap) (hh : h.all isGap) (hs : isSolid s) :
    trim (g ++ s ++ h) = s := by
  rw [isSolid_iff] at hs
  have hstart : trimStart (s ++ h) = s ++ h := by
    cases s with
    | nil => simp at hs
    | cons b s => exact trimStart_ink (by simpa using hs.1) (s ++ h)
  rw [trim, List.append_assoc, trimStart_gaps hg, hstart, trimEnd_gaps hh,
    trimEnd_of_getLast? hs.2]

/-! ### Collapsing -/

/-- The text goes on with visible bytes and single spaces between them; `started` says whether a
visible byte stands before it, so that a space or the end may come. -/
def tidyFrom (started : Bool) : Text → Bool
  | [] => started
  | b :: s => if isInk b then tidyFrom true s else b == ascii ' ' && started && tidyFrom false s

/-- The text is a sequence of runs of visible bytes with single spaces between neighbours. -/
def isTidy (s : Text) : Bool := tidyFrom false s

/-- What may be read after a run has ended may be read inside one. -/
lemma tidyFrom_mono {started : Bool} {s : Text} (h : tidyFrom false s) : tidyFrom started s := by
  cases s with
  | nil => simp [tidyFrom] at h
  | cons b s =>
    by_cases hb : isInk b
    · simpa [tidyFrom, hb] using h
    · simp [tidyFrom, hb] at h

/-- A tidy text followed by a text that may go on after a visible byte. -/
lemma tidyFrom_append {started : Bool} {s t : Text} (hs : tidyFrom started s)
    (ht : tidyFrom true t) : tidyFrom started (s ++ t) := by
  induction s generalizing started with
  | nil =>
    simp only [tidyFrom] at hs
    simpa [hs] using ht
  | cons b s ih =>
    by_cases hb : isInk b
    · simp only [tidyFrom, hb, if_true, List.cons_append] at hs ⊢
      exact ih hs
    · simp only [tidyFrom, hb, Bool.false_eq_true, if_false, Bool.and_eq_true,
        List.cons_append] at hs ⊢
      exact ⟨hs.1, ih hs.2⟩

/-- Visible bytes keep a text tidy. -/
lemma tidyFrom_ink {s : Text} (hs : s.all isInk) : tidyFrom true s := by
  induction s with
  | nil => rfl
  | cons b s ih =>
    simp only [List.all_cons, Bool.and_eq_true] at hs
    simp [tidyFrom, hs.1, ih hs.2]

/-- A tidy text starts and ends with a visible byte. -/
lemma isTrimmed_of_isTidy {s : Text} (h : isTidy s) : isTrimmed s := by
  have hlast : ∀ {started : Bool} {s : Text}, tidyFrom started s → s.getLast?.all isInk := by
    intro started s
    induction s generalizing started with
    | nil => intro _; rfl
    | cons b s ih =>
      intro hs
      by_cases hb : isInk b
      · simp only [tidyFrom, hb, if_true] at hs
        cases s with
        | nil => simpa using hb
        | cons c s => simpa [List.getLast?_cons_cons] using ih hs
      · simp only [tidyFrom, hb, Bool.false_eq_true, if_false, Bool.and_eq_true] at hs
        cases s with
        | nil => simp [tidyFrom] at hs
        | cons c s => simpa [List.getLast?_cons_cons] using ih hs.2
  have hhead : s.head?.all isInk := by
    cases s with
    | nil => rfl
    | cons b s =>
      by_cases hb : isInk b
      · simpa using hb
      · simp [isTidy, tidyFrom, hb] at h
  simp [isTrimmed, hhead, hlast h]

/-- The pieces of a tidy text between white space: they are not empty, the first one apart when the
text goes on with a run, and joined with spaces they are the text. -/
lemma spacePieces_tidy {started : Bool} {s : Text} (h : tidyFrom started s) :
    ∃ p ps, spacePieces 0 s = p :: ps ∧ (started = false → p ≠ []) ∧ (∀ q ∈ ps, q ≠ []) ∧
      join " " (p :: ps) = s := by
  induction s generalizing started with
  | nil =>
    simp only [tidyFrom] at h
    exact ⟨[], [], rfl, by simp [h], by simp, rfl⟩
  | cons b s ih =>
    by_cases hb : isInk b
    · simp only [tidyFrom, hb, if_true] at h
      obtain ⟨p, ps, hpieces, -, hps, hjoin⟩ := ih h
      refine ⟨b :: p, ps, ?_, by simp, hps, ?_⟩
      · simp [spacePieces, leadingWidth_ink areBlank_spaces hb, hpieces]
      · rw [← hjoin]
        cases ps <;> simp [join, List.intercalate, List.intersperse]
    · simp only [tidyFrom, hb, Bool.false_eq_true, if_false, Bool.and_eq_true, beq_iff_eq] at h
      obtain ⟨⟨rfl, hstarted⟩, hs⟩ := h
      obtain ⟨p, ps, hpieces, hp, hps, hjoin⟩ := ih hs
      refine ⟨[], p :: ps, ?_, by simp [hstarted], ?_, ?_⟩
      · simp [spacePieces, leadingWidth_spaces_blank, hpieces]
      · simpa using ⟨hp rfl, hps⟩
      · rw [← hjoin]
        rfl

/-- A tidy text is its own collapsing. -/
lemma collapse_eq_self {s : Text} (h : isTidy s) : collapse s = s := by
  obtain ⟨p, ps, hpieces, hp, hps, hjoin⟩ := spacePieces_tidy h
  have hfields : fields s = p :: ps := by
    rw [fields, hpieces, List.filter_eq_self]
    intro q hq
    rcases List.mem_cons.mp hq with rfl | hq
    · simpa using hp rfl
    · simpa using hps q hq
  rw [collapse, hfields, hjoin]

end DtoSchema.Text
