import DtoSchema.Source.Comments
import DtoSchema.Proofs.Source.Nested
import DtoSchema.Proofs.Text.Trimming

/-!
# Lines that are normal already

Before declarations are looked for, a source loses its comments, its line ends become line feeds and
open import and package lines are closed.  A source of lines in which slashes stand in literals
only, which hold no other line end and none of which starts like an import or package line, is left
as it is (`normalize_unlines`).
-/

namespace DtoSchema.Source

open Text

/-! ### Code without comments -/

lemma stripFrom_code_byte {b : UInt8} (hquote : isQuote b = false) (hslash : b ≠ ascii '/')
    (s : Text) : stripFrom .code (b :: s) = b :: stripFrom .code s := by
  cases s <;> simp [stripFrom, hquote, hslash]

lemma stripFrom_quote {b : UInt8} (hquote : isQuote b) (s : Text) :
    stripFrom .code (b :: s) = b :: stripFrom (.literal b) s := by
  cases s <;> simp [stripFrom, hquote]

/-- What a text is read as when comments are looked for, in the given state of its literals. -/
def Quoting.reading : Quoting → Reading
  | .code => .code
  | .inside q => .literal q
  | .escape q => .escape q

/-- Inside of a literal every byte but a line feed is kept and changes the state as elsewhere. -/
lemma stripFrom_reading {q : Quoting} (hq : q ≠ .code) {b : UInt8} (hb : b ≠ ascii '\n')
    (s : Text) : stripFrom q.reading (b :: s) = b :: stripFrom (q.step b).reading s := by
  cases q with
  | code => exact absurd rfl hq
  | escape c => rfl
  | inside c =>
    by_cases hescape : b = ascii '\\'
    · simp [Quoting.reading, Quoting.step, stripFrom, hescape]
    · by_cases hclose : b = c
      · simp [Quoting.reading, Quoting.step, stripFrom, hescape, ← hclose]
      · simp [Quoting.reading, Quoting.step, stripFrom, hescape, hclose, hb]

/-- A literal on one line is kept. -/
lemma stripFrom_literal {q : Quoting} {l : Text} (hl : Literal q l) (hline : ascii '\n' ∉ l)
    (t : Text) : stripFrom q.reading (l ++ t) = l ++ stripFrom .code t := by
  induction hl with
  | @close q b hq hb =>
    have hne : b ≠ ascii '\n' := by simpa [eq_comm] using hline
    rw [List.singleton_append, stripFrom_reading hq hne, hb]
    rfl
  | @more q b l hq _ _ ih =>
    simp only [List.mem_cons, not_or] at hline
    rw [List.cons_append, stripFrom_reading hq (Ne.symm hline.1), ih hline.2]
    rfl

/-- Code on one line in which slashes stand in literals only is kept. -/
lemma stripFrom_nested {s : Text} (hs : Nested ⟨[], []⟩ (· == ascii '/') s)
    (hline : ascii '\n' ∉ s) (t : Text) : stripFrom .code (s ++ t) = s ++ stripFrom .code t := by
  generalize hsep : (· == ascii '/') = sep at hs
  induction hs with
  | nil => rfl
  | @byte sep b s hplain hb _ ih =>
    subst hsep
    have hquote : isQuote b = false := by simpa [Brackets.isPlain] using hplain
    have hslash : b ≠ ascii '/' := by simpa using hb
    simp only [List.mem_cons, not_or] at hline
    rw [List.cons_append, stripFrom_code_byte hquote hslash, ih hline.2 rfl]
    rfl
  | @literal sep q l s hq hl _ ih =>
    simp only [List.mem_cons, List.mem_append, not_or] at hline
    have hliteral := stripFrom_literal hl hline.2.1 (s ++ t)
    rw [List.cons_append, stripFrom_quote hq, List.append_assoc]
    rw [Quoting.reading] at hliteral
    rw [hliteral, ih hline.2.2 hsep]
    simp
  | group hp => simp [Brackets.pairs] at hp

/-! ### Lines -/

/-- Without carriage returns there are no line ends to replace. -/
lemma replaceAll_eq_self {s : Text} (h : ascii '\r' ∉ s) : replaceAll "\r\n" "\n" s = s := by
  have hold : utf8 "\r\n" = [ascii '\r', ascii '\n'] := by decide
  unfold replaceAll
  induction s with
  | nil => rfl
  | cons b s ih =>
    obtain ⟨hb, hs⟩ : ascii '\r' ≠ b ∧ ascii '\r' ∉ s := by simpa using h
    have hprefix : (utf8 "\r\n").isPrefixOf (b :: s) = false := by
      rw [hold]
      simp [List.isPrefixOf, hb]
    simp [replaceFrom, hprefix, ih hs]

lemma pieces_cons {c b : UInt8} (h : b ≠ c) (s : Text) :
    pieces c (b :: s) = glue [b] (pieces c s) := by
  rw [pieces, if_neg h]
  cases pieces c s <;> rfl

lemma pieces_ne_nil (c : UInt8) (s : Text) : pieces c s ≠ [] := by
  cases s with
  | nil => simp [pieces]
  | cons b s =>
    by_cases h : b = c
    · simp [pieces, h]
    · rw [pieces_cons h]
      cases pieces c s <;> simp [glue]

lemma pieces_glue {c : UInt8} {a : Text} (ha : c ∉ a) (t : Text) :
    pieces c (a ++ t) = glue a (pieces c t) := by
  induction a with
  | nil => exact (glue_nil (pieces_ne_nil c t)).symm
  | cons b a ih =>
    simp only [List.mem_cons, not_or] at ha
    rw [List.cons_append, pieces_cons (Ne.symm ha.1), ih ha.2, ← glue_append]
    rfl

/-- A line is a piece between line feeds. -/
lemma pieces_append {c : UInt8} {s : Text} (h : c ∉ s) (t : Text) :
    pieces c (s ++ c :: t) = s :: pieces c t := by
  rw [pieces_glue h, pieces, if_pos rfl]
  simp [glue]

/-- The bytes that a normal line may hold. -/
def isLineByte (b : UInt8) : Bool := b != ascii '\r' && b != ascii '\n'

/-- The bytes of a class without line ends may stand in a normal line. -/
lemma isLineByte_of_class {p : UInt8 → Bool} (h : p (ascii '\r') = false ∧ p (ascii '\n') = false)
    (b : UInt8) (hb : p b) : isLineByte b := by
  simp [isLineByte, ne_of_class hb h.1, ne_of_class hb h.2]

/-- A line is left as it is when a source is normalized. -/
structure IsNormalLine (line : Text) : Prop where
  /-- It holds no line end. -/
  bytes : line.all isLineByte
  /-- It starts like no import or package line. -/
  starts : line.head?.all fun b => !isBlank b && b != ascii 'i' && b != ascii 'p'
  /-- Its slashes stand in literals only. -/
  nested : Nested ⟨[], []⟩ (· == ascii '/') line

/-- A byte that is none of a line does not stand in a normal line. -/
lemma IsNormalLine.not_mem {line : Text} (h : IsNormalLine line) {b : UInt8}
    (hb : isLineByte b = false) : b ∉ line := by
  intro hmem
  simp [List.all_eq_true.mp h.bytes b hmem] at hb

/-- A line that starts like no import or package line is not closed. -/
lemma closeHeader_eq_self {line : Text} (h : IsNormalLine line) : closeHeader line = line := by
  have hnone : afterHeaderWord? line = none := by
    cases line with
    | nil => rfl
    | cons b line =>
      have hb := h.starts
      simp only [List.head?_cons, Option.all_some, Bool.and_eq_true, Bool.not_eq_true',
        bne_iff_ne] at hb
      have himport : utf8 "import" = ascii 'i' :: utf8 "mport" := by decide
      have hpackage : utf8 "package" = ascii 'p' :: utf8 "ackage" := by decide
      simp [afterHeaderWord?, hb.1.1, himport, hpackage, afterPrefix?, Ne.symm hb.1.2,
        Ne.symm hb.2]
  simp [closeHeader, isOpenHeader, hnone]

/-- Lines one below the other, each with a line feed behind it. -/
def unlines (lines : List Text) : Text := lines.flatMap fun line => line ++ utf8 "\n"

lemma unlines_cons (line : Text) (lines : List Text) :
    unlines (line :: lines) = line ++ ascii '\n' :: unlines lines := by
  simp [unlines, utf8_newline]

/-- There are no comments in normal lines. -/
lemma stripComments_unlines {lines : List Text} (h : ∀ line ∈ lines, IsNormalLine line) :
    stripComments (unlines lines) = unlines lines := by
  unfold stripComments
  induction lines with
  | nil => rfl
  | cons line lines ih =>
    obtain ⟨hl, hls⟩ := List.forall_mem_cons.mp h
    rw [unlines_cons, stripFrom_nested hl.nested (hl.not_mem (by decide)),
      stripFrom_code_byte (by decide) (by decide), ih hls]

/-- There are no open import or package lines among normal lines. -/
lemma closeHeaders_unlines {lines : List Text} (h : ∀ line ∈ lines, IsNormalLine line) :
    closeHeaders (unlines lines) = unlines lines := by
  have hmem : ascii '\r' ∉ unlines lines := by
    intro hmem
    obtain ⟨line, hl, hmem⟩ := List.mem_flatMap.mp hmem
    rcases List.mem_append.mp hmem with hmem | hmem
    · exact (h line hl).not_mem (by decide) hmem
    · exact absurd hmem (by decide)
  rw [closeHeaders, replaceAll_eq_self hmem]
  clear hmem
  induction lines with
  | nil => decide
  | cons line lines ih =>
    obtain ⟨hl, hls⟩ := List.forall_mem_cons.mp h
    have hrest := ih hls
    rw [unlines_cons, pieces_append (hl.not_mem (by decide)), List.map_cons, closeHeader_eq_self hl]
    cases hpieces : (pieces (ascii '\n') (unlines lines)).map closeHeader with
    | nil => exact absurd (List.map_eq_nil_iff.mp hpieces) (pieces_ne_nil _ _)
    | cons p ps =>
      rw [hpieces] at hrest
      rw [join_cons_cons, hrest, utf8_newline]
      simp

/-- A source of normal lines is normal. -/
lemma normalize_unlines {α : Type} {f : α → Text} (h : ∀ a, IsNormalLine (f a)) (l : List α) :
    normalize (unlines (l.map f)) = unlines (l.map f) := by
  have hlines : ∀ line ∈ l.map f, IsNormalLine line := by
    intro line hline
    obtain ⟨a, -, rfl⟩ := List.mem_map.mp hline
    exact h a
  rw [normalize, stripComments_unlines hlines, closeHeaders_unlines hlines]

end DtoSchema.Source
