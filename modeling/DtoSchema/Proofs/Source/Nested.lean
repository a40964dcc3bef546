import Mathlib
import DtoSchema.Source.Nesting

/-!
# Nested texts

A text is nested with respect to a family of brackets if its brackets match and its literals are
closed.  `Nested brackets sep` is the grammar of these texts; the class `sep` of bytes does not
occur in them outside of brackets and literals, so that a nested text is never cut at a separator.

Every scanner of a source passes over a nested text as a whole and goes on behind it in the state in
which it came: `segments_nested` says so for cutting at separators, `topLevelFrom_nested` for the
search of a byte at the top level, `blockRest?_nested` for the reading of a balanced block, and
`blankFrom_nested` for the blanking of blocks.
-/

namespace DtoSchema.Source

open Text

/-! ### Literals -/

/-- The text is what is left of a literal in the given state, its closing quote included. -/
inductive Literal : Quoting → Text → Prop
  /-- The byte that leads back to code is the last one. -/
  | close {q : Quoting} {b : UInt8} : q ≠ .code → q.step b = .code → Literal q [b]
  /-- Any other byte is followed by more of the literal. -/
  | more {q : Quoting} {b : UInt8} {t : Text} :
      q ≠ .code → q.step b ≠ .code → Literal (q.step b) t → Literal q (b :: t)

/-- The text can stand between two quotes `q`: backslashes protect the bytes after them, and no
other byte is the quote. -/
def isLiteralContent (q : UInt8) : Text → Bool
  | [] => true
  | b :: s =>
    if b = ascii '\\' then
      match s with
      | [] => false
      | _ :: s => isLiteralContent q s
    else b != q && isLiteralContent q s

/-- The content of a literal and the closing quote are what is left of the literal behind its
opening quote. -/
lemma literal_of_isLiteralContent {q : UInt8} (hq : isQuote q) {t : Text}
    (ht : isLiteralContent q t) : Literal (.inside q) (t ++ [q]) := by
  have hne : q ≠ ascii '\\' := by
    rintro rfl
    exact absurd hq (by decide)
  fun_induction isLiteralContent q t with
  | case1 => exact .close (by simp) (by simp [Quoting.step, hne])
  | case2 => simp at ht
  | case3 c s ih =>
    refine .more (by simp) (by simp [Quoting.step]) ?_
    simp only [Quoting.step, if_true]
    exact .more (by simp) (by simp [Quoting.step]) (ih ht)
  | case4 b s hb ih =>
    simp only [bne_iff_ne, ne_eq, Bool.and_eq_true] at ht
    refine .more (by simp) (by simp [Quoting.step, hb, ht.1]) ?_
    simpa [Quoting.step, hb, ht.1] using ih ht.2

/-! ### The grammar -/

/-- The pairs of an opening byte and the byte that closes it. -/
def Brackets.pairs (brackets : Brackets) : List (UInt8 × UInt8) :=
  brackets.opening.zip brackets.closing

/-- No bracket is a quote, and no byte both opens and closes. -/
def Brackets.isProper (brackets : Brackets) : Bool :=
  brackets.pairs.all fun p => !isQuote p.1 && !isQuote p.2 && p.2 ∉ brackets.opening

/-- The texts whose brackets match and whose literals are closed, and that hold no byte of the class
`sep` outside of brackets and literals. -/
inductive Nested (brackets : Brackets) : (sep : UInt8 → Bool) → Text → Prop
  /-- The empty text. -/
  | nil {sep : UInt8 → Bool} : Nested brackets sep []
  /-- A byte that is neither quote nor bracket. -/
  | byte {sep : UInt8 → Bool} {b : UInt8} {s : Text} :
      brackets.isPlain b → sep b = false → Nested brackets sep s → Nested brackets sep (b :: s)
  /-- A literal. -/
  | literal {sep : UInt8 → Bool} {q : UInt8} {t s : Text} :
      isQuote q → Literal (.inside q) t → Nested brackets sep s →
        Nested brackets sep (q :: (t ++ s))
  /-- A pair of brackets around a nested text. -/
  | group {sep : UInt8 → Bool} {o c : UInt8} {t s : Text} :
      (o, c) ∈ brackets.pairs → Nested brackets (fun _ => false) t → Nested brackets sep s →
      Nested brackets sep (o :: (t ++ c :: s))

/-- The texts whose brackets match and whose literals are closed. -/
abbrev Balanced (brackets : Brackets) : Text → Prop := Nested brackets fun _ => false

namespace Nested

variable {brackets : Brackets} {sep : UInt8 → Bool} {s t : Text}

/-- Nested texts one behind the other. -/
lemma append (hs : Nested brackets sep s) (ht : Nested brackets sep t) :
    Nested brackets sep (s ++ t) := by
  induction hs with
  | nil => exact ht
  | byte hb hsep _ ih => exact .byte hb hsep (ih ht)
  | literal hq hl _ ih => simpa using Nested.literal hq hl (ih ht)
  | group hp hi _ _ ih => simpa using Nested.group hp hi (ih ht)

/-- A text of bytes that are neither quotes nor brackets nor separators. -/
lemma of_plain (h : s.all fun b => brackets.isPlain b && !sep b) : Nested brackets sep s := by
  induction s with
  | nil => exact .nil
  | cons b s ih =>
    simp only [List.all_cons, Bool.and_eq_true, Bool.not_eq_true'] at h
    exact .byte h.1.1 h.1.2 (ih h.2)

/-- A literal alone. -/
lemma quote {q : UInt8} (hq : isQuote q) (ht : isLiteralContent q t) :
    Nested brackets sep (q :: (t ++ [q])) := by
  have h : Nested brackets sep [] := .nil
  simpa using Nested.literal hq (literal_of_isLiteralContent hq ht) h

/-- A pair of brackets alone. -/
lemma enclose {o c : UInt8} (hp : (o, c) ∈ brackets.pairs) (ht : Balanced brackets t) :
    Nested brackets sep (o :: (t ++ [c])) :=
  .group hp ht .nil

/-- Fewer separators leave a text nested. -/
lemma weaken {sep' : UInt8 → Bool} (h : Nested brackets sep s)
    (hsep : ∀ b, sep' b = true → sep b = true) : Nested brackets sep' s := by
  induction h with
  | nil => exact .nil
  | @byte sep b s hb hb' _ ih =>
    refine .byte hb ?_ (ih hsep)
    cases hsep' : sep' b with
    | false => rfl
    | true => exact absurd (hsep b hsep') (by simp [hb'])
  | literal hq hl _ ih => exact .literal hq hl (ih hsep)
  | group hp hi _ _ ih => exact .group hp hi (ih hsep)

/-- A nested text is balanced. -/
lemma balanced (h : Nested brackets sep s) : Balanced brackets s := h.weaken (by simp)

/-- A balanced text without separators is nested. -/
lemma of_forall_mem {sep' : UInt8 → Bool} (h : Nested brackets sep' s)
    (hsep : ∀ b ∈ s, sep b = false) : Nested brackets sep s := by
  induction h with
  | nil => exact .nil
  | byte hb _ _ ih =>
    obtain ⟨hb', hs⟩ := List.forall_mem_cons.mp hsep
    exact .byte hb hb' (ih hs)
  | literal hq hl _ ih =>
    exact .literal hq hl (ih fun b hb => hsep b (by simp [hb]))
  | group hp hi _ _ ih =>
    exact .group hp hi (ih fun b hb => hsep b (by simp [hb]))

end Nested

/-- The family is a part of a larger one: its pairs are pairs of the larger one, whose other pairs
are made of plain bytes. -/
def Brackets.isPartOf (part whole : Brackets) : Bool :=
  (part.opening.all (· ∈ whole.opening)) && (part.closing.all (· ∈ whole.closing)) &&
    whole.pairs.all fun p => p ∈ part.pairs || part.isPlain p.1 && part.isPlain p.2

/-- A list between these two bytes holds no separator at the top level: either they are brackets of
the family, or they are plain and commas are no separators. -/
def Brackets.closes (brackets : Brackets) (sep : UInt8 → Bool) (p : UInt8 × UInt8) : Bool :=
  p ∈ brackets.pairs || (brackets.isPlain p.1 && brackets.isPlain p.2 && !sep p.1 && !sep p.2 &&
    !sep (ascii ','))

/-- What is plain in a larger family is plain in a part of it. -/
lemma Brackets.isPlain_of_isPartOf {part whole : Brackets} (h : part.isPartOf whole) {b : UInt8}
    (hb : whole.isPlain b) : part.isPlain b := by
  simp only [isPartOf, Bool.and_eq_true, List.all_eq_true, decide_eq_true_eq] at h
  simp only [isPlain, Bool.and_eq_true, Bool.not_eq_true', decide_eq_true_eq] at hb ⊢
  exact ⟨⟨hb.1.1, fun ho => hb.1.2 (h.1.1 b ho)⟩, fun hc => hb.2 (h.1.2 b hc)⟩

/-- A text that is balanced in a family of brackets is balanced in every part of the family. -/
lemma Nested.part {part whole : Brackets} (h : part.isPartOf whole) {sep : UInt8 → Bool} {s : Text}
    (hs : Nested whole sep s) : Balanced part s := by
  induction hs with
  | nil => exact .nil
  | byte hb _ _ ih => exact .byte (Brackets.isPlain_of_isPartOf h hb) rfl ih
  | literal hq hl _ ih => exact .literal hq hl ih
  | @group _ o c t s hp _ _ iht ih =>
    have hpair := (Bool.and_eq_true_iff.mp h).2
    have hpair := List.all_eq_true.mp hpair (o, c) hp
    simp only [Bool.or_eq_true, decide_eq_true_eq, Bool.and_eq_true] at hpair
    rcases hpair with hpair | ⟨ho, hc⟩
    · exact .group hpair iht ih
    · exact .byte ho rfl (iht.append (.byte hc rfl ih))

/-! ### Places of a scan -/

section Scan

variable {brackets : Brackets} {sep sep' : UInt8 → Bool} {s t : Text} {d : ℕ}

/-- Inside a literal a scan does not count brackets. -/
lemma Place.step_literal {q : Quoting} (hq : q ≠ .code) (b : UInt8) :
    Place.step brackets ⟨q, d⟩ b = ⟨q.step b, d⟩ := by
  cases q with
  | code => exact absurd rfl hq
  | inside _ => rfl
  | escape _ => rfl

/-- A quote opens a literal. -/
lemma Place.step_quote {q : UInt8} (hq : isQuote q) :
    Place.step brackets ⟨.code, d⟩ q = ⟨.inside q, d⟩ := by
  simp [Place.step, Quoting.step, hq]

/-- A plain byte leaves a scan where it is. -/
lemma Place.step_plain {b : UInt8} (hb : brackets.isPlain b) :
    Place.step brackets ⟨.code, d⟩ b = ⟨.code, d⟩ := by
  simp only [Brackets.isPlain, Bool.and_eq_true, Bool.not_eq_true', decide_eq_true_eq] at hb
  simp [Place.step, Quoting.step, hb]

/-- An opening bracket leads one level down. -/
lemma Place.step_open (hB : brackets.isProper) {o c : UInt8} (hp : (o, c) ∈ brackets.pairs) :
    Place.step brackets ⟨.code, d⟩ o = ⟨.code, d + 1⟩ := by
  have h := List.all_eq_true.mp hB (o, c) hp
  simp only [Bool.and_eq_true, Bool.not_eq_true'] at h
  simp [Place.step, Quoting.step, h.1.1, (List.of_mem_zip hp).1]

/-- A closing bracket leads one level up. -/
lemma Place.step_close (hB : brackets.isProper) {o c : UInt8} (hp : (o, c) ∈ brackets.pairs) :
    Place.step brackets ⟨.code, d + 1⟩ c = ⟨.code, d⟩ := by
  have h := List.all_eq_true.mp hB (o, c) hp
  simp only [Bool.and_eq_true, Bool.not_eq_true', decide_eq_true_eq] at h
  simp [Place.step, Quoting.step, h.1.2, h.2, (List.of_mem_zip hp).2]

/-- Only plain bytes separate. -/
lemma Place.cutsAt_eq_false {p : Place} {b : UInt8} (h : brackets.isPlain b = false) :
    p.cutsAt brackets sep b = false := by
  simp [Place.cutsAt, h]

/-- No byte inside a literal separates. -/
lemma Place.cutsAt_literal {q : Quoting} (hq : q ≠ .code) (b : UInt8) :
    Place.cutsAt brackets sep ⟨q, d⟩ b = false := by
  simp [Place.cutsAt, Place.isTop, hq]

/-- A byte that is no separator at the top level does not separate. -/
lemma Place.cutsAt_plain {b : UInt8} (h : d = 0 → sep b = false) :
    Place.cutsAt brackets sep ⟨.code, d⟩ b = false := by
  by_cases hd : d = 0
  · simp [Place.cutsAt, h hd]
  · simp [Place.cutsAt, Place.isTop, hd]

/-- A quote is not plain. -/
lemma Brackets.isPlain_quote {q : UInt8} (hq : isQuote q) : brackets.isPlain q = false := by
  simp [Brackets.isPlain, hq]

/-- An opening bracket is not plain. -/
lemma Brackets.isPlain_open {o c : UInt8} (hp : (o, c) ∈ brackets.pairs) :
    brackets.isPlain o = false := by
  simp [Brackets.isPlain, (List.of_mem_zip hp).1]

/-- A closing bracket is not plain. -/
lemma Brackets.isPlain_close {o c : UInt8} (hp : (o, c) ∈ brackets.pairs) :
    brackets.isPlain c = false := by
  simp [Brackets.isPlain, (List.of_mem_zip hp).2]

/-! ### Cutting at separators -/

/-- The text in front of the first part. -/
def glue (s : Text) : List Text → List Text
  | [] => [s]
  | part :: parts => (s ++ part) :: parts

@[simp] lemma glue_cons (s part : Text) (parts : List Text) :
    glue s (part :: parts) = (s ++ part) :: parts := rfl

/-- Two texts in front of the first part are their concatenation in front of it. -/
lemma glue_append (s t : Text) (parts : List Text) :
    glue (s ++ t) parts = glue s (glue t parts) := by
  cases parts <;> simp [glue]

/-- The empty text in front of the first part changes nothing. -/
lemma glue_nil {parts : List Text} (h : parts ≠ []) : glue [] parts = parts := by
  cases parts with
  | nil => exact absurd rfl h
  | cons part parts => rfl

/-- There is always at least one part. -/
lemma segments_ne_nil (p : Place) (s : Text) : segments brackets sep p s ≠ [] := by
  cases s with
  | nil => simp [segments]
  | cons b s =>
    rw [segments]
    split
    · simp
    · split <;> simp

/-- A byte at which a text is cut starts a new part. -/
lemma segments_cut {p : Place} {b : UInt8} (h : p.cutsAt brackets sep b) (s : Text) :
    segments brackets sep p (b :: s) = [] :: segments brackets sep p s := by
  rw [segments, if_pos h]

/-- A byte at which a text is not cut stays in front of what follows. -/
lemma segments_cons {p : Place} {b : UInt8} (h : p.cutsAt brackets sep b = false) (s : Text) :
    segments brackets sep p (b :: s) = glue [b] (segments brackets sep (p.step brackets b) s) := by
  rw [segments, h, if_neg (by simp)]
  cases segments brackets sep (p.step brackets b) s <;> rfl

/-- A literal is not cut. -/
lemma segments_literal {q : Quoting} (h : Literal q t) (s : Text) :
    segments brackets sep ⟨q, d⟩ (t ++ s) = glue t (segments brackets sep ⟨.code, d⟩ s) := by
  induction h with
  | @close q b hq hb =>
    rw [List.cons_append, segments_cons (Place.cutsAt_literal hq b), Place.step_literal hq, hb]
    rfl
  | @more q b t hq _ _ ih =>
    rw [List.cons_append, segments_cons (Place.cutsAt_literal hq b), Place.step_literal hq, ih,
      ← glue_append]
    rfl

/-- A nested text is not cut, at the top level because it holds no separator there and further down
because nothing is cut there. -/
lemma segments_nested (hB : brackets.isProper) (hs : Nested brackets sep' s)
    (hsep : d = 0 → ∀ b, sep b = true → sep' b = true) (t : Text) :
    segments brackets sep ⟨.code, d⟩ (s ++ t) = glue s (segments brackets sep ⟨.code, d⟩ t) := by
  induction hs generalizing d t with
  | nil => exact (glue_nil (segments_ne_nil _ t)).symm
  | @byte sep' b s hb hb' _ ih =>
    have hcut : Place.cutsAt brackets sep ⟨.code, d⟩ b = false := by
      refine Place.cutsAt_plain fun hd => ?_
      by_contra hne
      have := hsep hd b (by simpa using hne)
      simp [hb'] at this
    rw [List.cons_append, segments_cons hcut, Place.step_plain hb, ih hsep, ← glue_append]
    rfl
  | @literal sep' q l s hq hl _ ih =>
    rw [List.cons_append, List.append_assoc,
      segments_cons (Place.cutsAt_eq_false (Brackets.isPlain_quote hq)), Place.step_quote hq,
      segments_literal hl, ih hsep, ← glue_append, ← glue_append]
    simp
  | @group sep' o c i s hp _ _ ihi ih =>
    rw [List.cons_append, List.append_assoc, List.cons_append,
      segments_cons (Place.cutsAt_eq_false (Brackets.isPlain_open hp)), Place.step_open hB hp,
      ihi (by simp), segments_cons (Place.cutsAt_eq_false (Brackets.isPlain_close hp)),
      Place.step_close hB hp, ih hsep, ← glue_append, ← glue_append, ← glue_append]
    simp

/-- A nested text up to a separator is the first part of a text. -/
lemma segments_nested_cut (hB : brackets.isProper) (hs : Nested brackets sep s) {b : UInt8}
    (hb : brackets.isPlain b) (hsep : sep b) (t : Text) :
    segments brackets sep {} (s ++ b :: t) = s :: segments brackets sep {} t := by
  have hcut : Place.cutsAt brackets sep {} b := by simp [Place.cutsAt, Place.isTop, hb, hsep]
  rw [segments_nested hB hs (by simp), segments_cut hcut]
  simp

/-- A nested text is a single part. -/
lemma segments_nested_self (hB : brackets.isProper) (hs : Nested brackets sep s) :
    segments brackets sep {} s = [s] := by
  have h : segments brackets sep {} (s ++ []) = glue s (segments brackets sep {} []) :=
    segments_nested hB hs (by simp) []
  simpa [segments] using h

/-! ### Searching at the top level -/

/-- The search of a byte goes on behind a byte at which the text would not be cut. -/
lemma topLevelFrom_cons {target b : UInt8} {p : Place}
    (h : p.cutsAt .grouping (· == target) b = false) (s : Text) :
    topLevelFrom target p (b :: s) =
      (topLevelFrom target (p.step .grouping b) s).map (· + 1) := by
  rw [topLevelFrom, h, if_neg (by simp)]

/-- A byte is not found inside a literal. -/
lemma topLevelFrom_literal {target : UInt8} {q : Quoting} (h : Literal q t) (s : Text) :
    topLevelFrom target ⟨q, d⟩ (t ++ s) =
      (topLevelFrom target ⟨.code, d⟩ s).map (· + t.length) := by
  induction h with
  | @close q b hq hb =>
    rw [List.cons_append, topLevelFrom_cons (Place.cutsAt_literal hq b), Place.step_literal hq, hb]
    rfl
  | @more q b t hq _ _ ih =>
    rw [List.cons_append, topLevelFrom_cons (Place.cutsAt_literal hq b), Place.step_literal hq, ih,
      Option.map_map]
    rfl

/-- The search of a byte passes over a nested text that does not hold it at its top level. -/
lemma topLevelFrom_nested {target : UInt8} (hs : Nested .grouping sep' s)
    (hsep : d = 0 → sep' target = true) (t : Text) :
    topLevelFrom target ⟨.code, d⟩ (s ++ t) =
      (topLevelFrom target ⟨.code, d⟩ t).map (· + s.length) := by
  have hB : Brackets.grouping.isProper := by decide
  induction hs generalizing d t with
  | nil => simp
  | @byte sep' b s hb hb' _ ih =>
    have hcut : Place.cutsAt .grouping (· == target) ⟨.code, d⟩ b = false := by
      refine Place.cutsAt_plain fun hd => ?_
      simp only [beq_eq_false_iff_ne]
      rintro rfl
      simp [hsep hd] at hb'
    rw [List.cons_append, topLevelFrom_cons hcut, Place.step_plain hb, ih hsep, Option.map_map]
    rfl
  | @literal sep' q l s hq hl _ ih =>
    rw [List.cons_append, List.append_assoc,
      topLevelFrom_cons (Place.cutsAt_eq_false (Brackets.isPlain_quote hq)), Place.step_quote hq,
      topLevelFrom_literal hl, ih hsep, Option.map_map, Option.map_map]
    congr 1
    funext n
    simp only [Function.comp_apply, List.length_cons, List.length_append]
    omega
  | @group sep' o c i s hp _ _ ihi ih =>
    rw [List.cons_append, List.append_assoc, List.cons_append,
      topLevelFrom_cons (Place.cutsAt_eq_false (Brackets.isPlain_open hp)), Place.step_open hB hp,
      ihi (by simp), topLevelFrom_cons (Place.cutsAt_eq_false (Brackets.isPlain_close hp)),
      Place.step_close hB hp, ih hsep, Option.map_map, Option.map_map, Option.map_map]
    congr 1
    funext n
    simp only [Function.comp_apply, List.length_cons, List.length_append]
    omega

/-- A byte that a nested text does not hold at its top level is not found in it. -/
lemma topLevelIndex?_nested {target : UInt8} (hs : Nested .grouping (· == target) s) :
    topLevelIndex? target s = none := by
  have h : topLevelFrom target {} (s ++ []) = (topLevelFrom target {} []).map (· + s.length) :=
    topLevelFrom_nested hs (by simp) []
  simpa [topLevelIndex?, topLevelFrom] using h

/-- The text in front of a byte that it does not hold is all of it. -/
lemma beforeTopLevel_nested {target : UInt8} (hs : Nested .grouping (· == target) s) :
    beforeTopLevel target s = s := by
  simp [beforeTopLevel, topLevelIndex?_nested hs]

/-- A byte that does not occur in a text is not found at its top level. -/
lemma beforeTopLevel_of_not_mem {target : UInt8} {s : Text} (h : target ∉ s) :
    beforeTopLevel target s = s := by
  have hnone : ∀ (s : Text) (p : Place), target ∉ s → topLevelFrom target p s = none := by
    intro s
    induction s with
    | nil => intro p _; rfl
    | cons b s ih =>
      intro p hmem
      simp only [List.mem_cons, not_or] at hmem
      have hcut : p.cutsAt .grouping (· == target) b = false := by
        simp [Place.cutsAt, Ne.symm hmem.1]
      rw [topLevelFrom_cons hcut, ih _ hmem.2, Option.map_none]
  simp [beforeTopLevel, topLevelIndex?, hnone s {} h]

/-- A nested text in front of the byte that is searched for is the text in front of it. -/
lemma beforeTopLevel_nested_append {target : UInt8} (hs : Nested .grouping (· == target) s)
    (hb : Brackets.grouping.isPlain target) (t : Text) :
    beforeTopLevel target (s ++ target :: t) = s := by
  have hcut : Place.cutsAt .grouping (· == target) {} target := by
    simp [Place.cutsAt, Place.isTop, hb]
  have h : topLevelIndex? target (s ++ target :: t) = some s.length := by
    rw [topLevelIndex?, topLevelFrom_nested hs (d := 0) (by simp), topLevelFrom, if_pos hcut]
    simp
  simp [beforeTopLevel, h]

/-! ### Reading a block -/

/-- The family of a single pair of brackets. -/
def Brackets.single (opening closing : UInt8) : Brackets := ⟨[opening], [closing]⟩

/-- How a block goes on outside of literals. -/
lemma blockRest?_code (opening closing : UInt8) (d : ℕ) (b : UInt8) (s : Text) :
    blockRest? opening closing .code d (b :: s) =
      if isQuote b then (blockRest? opening closing (.inside b) d s).map (consFirst b)
      else if b = opening then (blockRest? opening closing .code (d + 1) s).map (consFirst b)
      else if b = closing then
        match d with
        | 0 => some ([], s)
        | d + 1 => (blockRest? opening closing .code d s).map (consFirst b)
      else (blockRest? opening closing .code d s).map (consFirst b) := rfl

/-- A block goes on behind a literal in it. -/
lemma blockRest?_literal {opening closing : UInt8} {q : Quoting} (h : Literal q t) (s : Text) :
    blockRest? opening closing q d (t ++ s) =
      (blockRest? opening closing .code d s).map fun r => (t ++ r.1, r.2) := by
  have hstep : ∀ {q : Quoting}, q ≠ .code → ∀ (b : UInt8) (s : Text),
      blockRest? opening closing q d (b :: s) =
        (blockRest? opening closing (q.step b) d s).map (consFirst b) := by
    intro q hq b s
    cases q with
    | code => exact absurd rfl hq
    | inside _ => rfl
    | escape _ => rfl
  induction h with
  | @close q b hq hb =>
    rw [List.cons_append, hstep hq, hb]
    rfl
  | @more q b t hq _ _ ih =>
    rw [List.cons_append, hstep hq, ih, Option.map_map]
    rfl

/-- A block goes on behind a balanced text in it. -/
lemma blockRest?_nested {opening closing : UInt8} (hB : (Brackets.single opening closing).isProper)
    (hs : Nested (.single opening closing) sep s) (t : Text) :
    blockRest? opening closing .code d (s ++ t) =
      (blockRest? opening closing .code d t).map fun r => (s ++ r.1, r.2) := by
  induction hs generalizing d t with
  | nil => simp
  | @byte sep b s hb _ _ ih =>
    have hb : isQuote b = false ∧ b ≠ opening ∧ b ≠ closing := by
      simpa [Brackets.isPlain, Brackets.single, and_assoc] using hb
    rw [List.cons_append, blockRest?_code, if_neg (by simp [hb.1]), if_neg hb.2.1, if_neg hb.2.2,
      ih, Option.map_map]
    rfl
  | @literal sep q l s hq hl _ ih =>
    rw [List.cons_append, List.append_assoc, blockRest?_code, if_pos hq, blockRest?_literal hl, ih,
      Option.map_map, Option.map_map]
    simp [Function.comp_def, consFirst]
  | @group sep o c i s hp _ _ ihi ih =>
    have hoc : o = opening ∧ c = closing := by simpa [Brackets.pairs, Brackets.single] using hp
    obtain ⟨rfl, rfl⟩ := hoc
    have hproper : isQuote o = false ∧ isQuote c = false ∧ c ≠ o := by
      simpa [Brackets.isProper, Brackets.pairs, Brackets.single, and_assoc] using hB
    rw [List.cons_append, List.append_assoc, List.cons_append, blockRest?_code,
      if_neg (by simp [hproper.1]), if_pos rfl, ihi, blockRest?_code,
      if_neg (by simp [hproper.2.1]), if_neg hproper.2.2, if_pos rfl]
    simp only [ih, Option.map_map]
    simp [Function.comp_def, consFirst]

/-- A balanced text between brackets is read as a block. -/
lemma readBalanced?_nested {opening closing : UInt8}
    (hB : (Brackets.single opening closing).isProper) (hs : Balanced (.single opening closing) s)
    (t : Text) : readBalanced? opening closing (opening :: (s ++ closing :: t)) = some (s, t) := by
  have hproper : isQuote opening = false ∧ isQuote closing = false ∧ closing ≠ opening := by
    simpa [Brackets.isProper, Brackets.pairs, Brackets.single, and_assoc] using hB
  rw [readBalanced?, if_pos ⟨rfl, by simp [hproper.1]⟩, blockRest?_nested hB hs, blockRest?_code,
    if_neg (by simp [hproper.2.1]), if_neg hproper.2.2, if_pos rfl]
  simp

/-- A block that is read is its content, the closing byte and the rest. -/
lemma eq_of_blockRest? {opening closing : UInt8} {q : Quoting} {d : ℕ} {s content rest : Text}
    (h : blockRest? opening closing q d s = some (content, rest)) :
    s = content ++ closing :: rest := by
  induction s generalizing q d content with
  | nil => simp [blockRest?] at h
  | cons b s ih =>
    have hstep : ∀ {q : Quoting} {d : ℕ},
        (blockRest? opening closing q d s).map (consFirst b) = some (content, rest) →
          b :: s = content ++ closing :: rest := by
      intro q d hmap
      obtain ⟨⟨content', rest'⟩, hrest, heq⟩ := Option.map_eq_some_iff.mp hmap
      obtain ⟨rfl, rfl⟩ := Prod.mk.inj heq
      rw [ih hrest, List.cons_append]
    cases q with
    | code =>
      rw [blockRest?_code] at h
      split at h
      · exact hstep h
      · split at h
        · exact hstep h
        · split at h
          · next hclose =>
            cases d with
            | zero =>
              obtain ⟨rfl, rfl⟩ := Prod.mk.inj (Option.some.inj h)
              rw [hclose, List.nil_append]
            | succ d => exact hstep h
          · exact hstep h
    | inside q => exact hstep h
    | escape q => exact hstep h

lemma eq_of_readBalanced? {opening closing : UInt8} {s content rest : Text}
    (h : readBalanced? opening closing s = some (content, rest)) :
    s = opening :: (content ++ closing :: rest) := by
  cases s with
  | nil => simp [readBalanced?] at h
  | cons b s =>
    rw [readBalanced?] at h
    split at h
    · next hb => rw [hb.1, eq_of_blockRest? h]
    · simp at h

/-! ### Blanking blocks -/

/-- The text with every byte but line feeds written as a space. -/
def blanks (s : Text) : Text := s.map fun b => if b = ascii '\n' then b else ascii ' '

/-- The braces. -/
def isBrace (b : UInt8) : Bool := b == ascii '\x7b' || b == ascii '\x7d'

/-- A byte inside a block that does not close the block is blanked. -/
lemma blanked_inside {p : Place} {b : UInt8} (hp : 0 < p.depth)
    (hstep : 0 < (p.step .braces b).depth) :
    blanked p b = if b = ascii '\n' then b else ascii ' ' := by
  by_cases hb : b = ascii '\n' <;> simp [blanked, hp, hstep, hb]

/-- A byte outside of all blocks stays. -/
lemma blanked_outside {p : Place} (hp : p.depth = 0) (b : UInt8) : blanked p b = b := by
  simp [blanked, hp]

/-- A literal is blanked inside a block. -/
lemma blankFrom_literal {q : Quoting} (h : Literal q t) (s : Text) :
    blankFrom ⟨q, d + 1⟩ (t ++ s) = blanks t ++ blankFrom ⟨.code, d + 1⟩ s := by
  induction h with
  | @close q b hq hb =>
    rw [List.cons_append, blankFrom, Place.step_literal hq, hb,
      blanked_inside (by simp) (by simp [Place.step_literal hq])]
    rfl
  | @more q b t hq _ _ ih =>
    rw [List.cons_append, blankFrom, Place.step_literal hq, ih,
      blanked_inside (by simp) (by simp [Place.step_literal hq])]
    rfl

/-- A literal outside of all blocks stays. -/
lemma blankFrom_literal_outside {q : Quoting} (h : Literal q t) (s : Text) :
    blankFrom ⟨q, 0⟩ (t ++ s) = t ++ blankFrom {} s := by
  induction h with
  | @close q b hq hb =>
    rw [List.cons_append, blankFrom, Place.step_literal hq, hb, blanked_outside rfl]
    rfl
  | @more q b t hq _ _ ih =>
    rw [List.cons_append, blankFrom, Place.step_literal hq, ih, blanked_outside rfl]
    rfl

/-- A text whose braces match is blanked inside a block. -/
lemma blankFrom_nested (hs : Nested .braces sep s) (t : Text) :
    blankFrom ⟨.code, d + 1⟩ (s ++ t) = blanks s ++ blankFrom ⟨.code, d + 1⟩ t := by
  have hB : Brackets.braces.isProper := by decide
  induction hs generalizing d t with
  | nil => rfl
  | @byte sep b s hb _ _ ih =>
    rw [List.cons_append, blankFrom, Place.step_plain hb, ih,
      blanked_inside (by simp) (by simp [Place.step_plain hb])]
    rfl
  | @literal sep q l s hq hl _ ih =>
    rw [List.cons_append, List.append_assoc, blankFrom, Place.step_quote hq, blankFrom_literal hl,
      ih, blanked_inside (by simp) (by simp [Place.step_quote hq])]
    simp [blanks]
  | @group sep o c i s hp _ _ ihi ih =>
    rw [List.cons_append, List.append_assoc, List.cons_append, blankFrom, Place.step_open hB hp,
      ihi, blankFrom, Place.step_close hB hp, ih,
      blanked_inside (by simp) (by simp [Place.step_open hB hp]),
      blanked_inside (by simp) (by simp [Place.step_close hB hp])]
    simp [blanks]

/-- A text without braces outside of literals stays where no block is open. -/
lemma blankFrom_outside (hs : Nested ⟨[], []⟩ isBrace s) (t : Text) :
    blankFrom {} (s ++ t) = s ++ blankFrom {} t := by
  generalize hsep : isBrace = sep at hs
  induction hs generalizing t with
  | nil => rfl
  | @byte sep b s hb hb' _ ih =>
    subst hsep
    have hplain : Brackets.braces.isPlain b := by
      simp only [Brackets.isPlain, isBrace, Brackets.braces] at hb hb' ⊢
      simp_all
    rw [List.cons_append, blankFrom, Place.step_plain hplain, ih _ rfl, blanked_outside rfl]
    rfl
  | @literal sep q l s hq hl _ ih =>
    rw [List.cons_append, List.append_assoc, blankFrom, Place.step_quote hq,
      blankFrom_literal_outside hl, ih _ hsep, blanked_outside rfl]
    simp
  | group hp => simp [Brackets.pairs] at hp

/-- A block outside of all blocks keeps its braces, and its content is blanked. -/
lemma blankFrom_block (hs : Balanced .braces s) (t : Text) :
    blankFrom {} (ascii '\x7b' :: (s ++ ascii '\x7d' :: t)) =
      ascii '\x7b' :: (blanks s ++ ascii '\x7d' :: blankFrom {} t) := by
  have hB : Brackets.braces.isProper := by decide
  have hp : (ascii '\x7b', ascii '\x7d') ∈ Brackets.braces.pairs := by decide
  have hclose : blanked ⟨.code, 1⟩ (ascii '\x7d') = ascii '\x7d' := by
    simp [blanked, Place.step_close hB hp]
  rw [blankFrom, Place.step_open hB hp, blankFrom_nested hs, blankFrom, Place.step_close hB hp,
    hclose, blanked_outside rfl]

end Scan

end DtoSchema.Source
