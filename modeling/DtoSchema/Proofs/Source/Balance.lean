import DtoSchema.Proofs.Source.Parts

/-!
# Counting brackets

The brackets of one kind match in a text if a scan that counts only them never meets a closing one
that closes nothing and ends outside of all of them.  Different kinds may overlap: each of them is
counted alone.  If each of two families matches, so does their union, whose count is the sum
(`isBalanced_union`); hence a text that is balanced in every kind of brackets leads a scan over all
of them back to where it started, whatever the kinds do to each other.
-/

namespace DtoSchema.Source

open Text

/-! ### Matching brackets -/

/-- The place after one more byte; there is none after a closing bracket that closes nothing. -/
def Place.step? (brackets : Brackets) (p : Place) (b : UInt8) : Option Place :=
  if p.quoting = .code ∧ b ∈ brackets.closing ∧ p.depth = 0 then none
  else some (p.step brackets b)

/-- The place behind a text in which no closing bracket is left over. -/
def Place.after? (brackets : Brackets) (p : Place) (s : Text) : Option Place :=
  s.foldlM (Place.step? brackets) p

/-- The brackets of the text match, and its literals are closed. -/
def isBalanced (brackets : Brackets) (s : Text) : Bool := Place.after? brackets {} s = some {}

section

variable {brackets : Brackets} {p p' : Place} {s t : Text}

lemma Place.after?_cons (p : Place) (b : UInt8) (s : Text) :
    p.after? brackets (b :: s) = (p.step? brackets b).bind fun p' => p'.after? brackets s :=
  rfl

lemma Place.after?_append (p : Place) (s t : Text) :
    p.after? brackets (s ++ t) = (p.after? brackets s).bind fun p' => p'.after? brackets t :=
  List.foldlM_append

lemma Place.eq_step_of_step? {b : UInt8} (h : p.step? brackets b = some p') :
    p' = p.step brackets b := by
  unfold Place.step? at h
  split at h
  · simp at h
  · exact (Option.some.inj h).symm

lemma Place.after_of_after? (h : p.after? brackets s = some p') : p.after brackets s = p' := by
  induction s generalizing p with
  | nil => exact Option.some.inj h
  | cons b s ih =>
    rw [Place.after?_cons, Option.bind_eq_some_iff] at h
    obtain ⟨r, hr, hrest⟩ := h
    rw [← ih hrest, Place.eq_step_of_step? hr]
    rfl

lemma Place.after_of_isBalanced (h : isBalanced brackets s) : Place.after brackets {} s = {} :=
  Place.after_of_after? (by simpa [isBalanced] using h)

lemma Place.step?_plain {b : UInt8} (hb : brackets.isPlain b) (p : Place) :
    p.step? brackets b = some (p.step brackets b) := by
  have hclosing : b ∉ brackets.closing := by
    simp only [Brackets.isPlain, Bool.and_eq_true, decide_eq_true_eq, Bool.not_eq_true'] at hb
    simpa using hb.2
  rw [Place.step?, if_neg fun h => hclosing h.2.1]

lemma isBalanced_of_plain (h : s.all brackets.isPlain) : isBalanced brackets s := by
  suffices hafter : Place.after? brackets {} s = some {} by simpa [isBalanced] using hafter
  induction s with
  | nil => rfl
  | cons b s ih =>
    rw [List.all_cons, Bool.and_eq_true] at h
    rw [Place.after?_cons, Place.step?_plain h.1, Place.step_plain h.1, Option.bind_some, ih h.2]

lemma isBalanced_append (hs : isBalanced brackets s) (ht : isBalanced brackets t) :
    isBalanced brackets (s ++ t) := by
  simp only [isBalanced, decide_eq_true_eq] at hs ht ⊢
  rw [Place.after?_append, hs, Option.bind_some, ht]

end

/-! ### Families of several kinds -/

/-- The brackets of two families. -/
def Brackets.union (a b : Brackets) : Brackets := ⟨a.opening ++ b.opening, a.closing ++ b.closing⟩

/-- No bracket of one family is one of the other. -/
def Brackets.isApart (a b : Brackets) : Bool :=
  (a.opening ++ a.closing).all fun c => c ∉ b.opening ++ b.closing

/-- A step over two families is a step over each of them. -/
lemma Place.step?_union {a b : Brackets} (hapart : a.isApart b) {q : Quoting} {m n : ℕ} {c : UInt8}
    {p p' : Place} (ha : Place.step? a ⟨q, m⟩ c = some p) (hb : Place.step? b ⟨q, n⟩ c = some p') :
    Place.step? (a.union b) ⟨q, m + n⟩ c = some ⟨p.quoting, p.depth + p'.depth⟩ := by
  have hopen : ∀ {a : Brackets} {q : Quoting} {d : ℕ} {p : Place},
      Place.step? a ⟨q, d⟩ c = some p → q = .code → c ∈ a.closing → d ≠ 0 := by
    rintro a q d p hstep rfl hc rfl
    simp [Place.step?, hc] at hstep
  have hnone : ¬ (q = .code ∧ c ∈ (a.union b).closing ∧ m + n = 0) := by
    rintro ⟨hq, hc, hzero⟩
    rcases List.mem_append.mp hc with hc | hc
    · exact hopen ha hq hc (by omega)
    · exact hopen hb hq hc (by omega)
  rw [Place.step?, if_neg hnone, Place.eq_step_of_step? ha, Place.eq_step_of_step? hb]
  cases q with
  | inside q => rfl
  | escape q => rfl
  | code =>
    have hother : c ∈ a.opening ++ a.closing → c ∉ b.opening ∧ c ∉ b.closing := by
      intro hc
      have h := List.all_eq_true.mp hapart c hc
      simpa using h
    have hother' : c ∈ b.opening ++ b.closing → c ∉ a.opening ∧ c ∉ a.closing := by
      intro hc
      rw [← not_or, ← List.mem_append]
      exact fun h => (List.mem_append.mp hc).elim (hother h).1 (hother h).2
    simp only [Place.step, Brackets.union, List.mem_append, Option.some.injEq, Place.mk.injEq,
      true_and]
    by_cases hquote : isQuote c
    · simp [hquote]
    simp only [hquote, Bool.false_eq_true, if_false]
    by_cases hao : c ∈ a.opening
    · simp only [hao, true_or, if_true, hother (by simp [hao]), if_false]
      omega
    by_cases hbo : c ∈ b.opening
    · simp only [hbo, or_true, if_true, hother' (by simp [hbo]), if_false]
      omega
    by_cases hac : c ∈ a.closing
    · have hm := hopen ha rfl hac
      simp only [hao, hbo, hac, or_self, or_false, if_true, if_false, hother (by simp [hac])]
      omega
    by_cases hbc : c ∈ b.closing
    · have hn := hopen hb rfl hbc
      simp only [hao, hbo, hac, hbc, or_self, or_true, if_true, if_false]
      omega
    · simp [hao, hbo, hac, hbc]

lemma Place.after?_union {a b : Brackets} (hapart : a.isApart b) {q q' : Quoting} {m n m' n' : ℕ}
    {s : Text} (ha : Place.after? a ⟨q, m⟩ s = some ⟨q', m'⟩)
    (hb : Place.after? b ⟨q, n⟩ s = some ⟨q', n'⟩) :
    Place.after? (a.union b) ⟨q, m + n⟩ s = some ⟨q', m' + n'⟩ := by
  induction s generalizing q m n with
  | nil =>
    obtain ⟨rfl, rfl⟩ := Place.mk.inj (Option.some.inj ha)
    obtain ⟨-, rfl⟩ := Place.mk.inj (Option.some.inj hb)
    rfl
  | cons c s ih =>
    rw [Place.after?_cons, Option.bind_eq_some_iff] at ha hb
    obtain ⟨p, hp, hrest⟩ := ha
    obtain ⟨p', hp', hrest'⟩ := hb
    have hquoting : p'.quoting = p.quoting := by
      rw [Place.eq_step_of_step? hp, Place.eq_step_of_step? hp']
      rfl
    rw [Place.after?_cons, Place.step?_union hapart hp hp', Option.bind_some]
    refine ih hrest ?_
    rw [← hquoting]
    exact hrest'

/-- A text that is balanced in two families of brackets is balanced in both at once. -/
lemma isBalanced_union {a b : Brackets} (hapart : a.isApart b) {s : Text} (ha : isBalanced a s)
    (hb : isBalanced b s) : isBalanced (a.union b) s := by
  simp only [isBalanced, decide_eq_true_eq] at ha hb ⊢
  exact Place.after?_union hapart ha hb

/-- The text is balanced in every kind of brackets. -/
def isBalancedInAll (s : Text) : Bool :=
  Brackets.all.pairs.all fun p => isBalanced (.single p.1 p.2) s

lemma isBalanced_all {s : Text} (h : isBalancedInAll s) : isBalanced .all s := by
  have hpairs : ∀ p ∈ Brackets.all.pairs, isBalanced (.single p.1 p.2) s := List.all_eq_true.mp h
  have hangle := hpairs (ascii '<', ascii '>') (by decide)
  have hround := hpairs (ascii '(', ascii ')') (by decide)
  have hsquare := hpairs (ascii '[', ascii ']') (by decide)
  have hcurly := hpairs (ascii '\x7b', ascii '\x7d') (by decide)
  exact isBalanced_union (by decide) hangle
    (isBalanced_union (by decide) hround (isBalanced_union (by decide) hsquare hcurly))

/-- Plain bytes are balanced in every part of a family. -/
lemma isBalanced_of_isPartOf {part whole : Brackets} (hpart : part.isPartOf whole) {s : Text}
    (h : s.all whole.isPlain) : isBalanced part s :=
  isBalanced_of_plain (all_mono (fun _ => Brackets.isPlain_of_isPartOf hpart) h)

lemma isPartOf_all {p : UInt8 × UInt8} (hp : p ∈ Brackets.all.pairs) :
    (Brackets.single p.1 p.2).isPartOf .all := by
  have hparts : Brackets.all.pairs.all fun p => (Brackets.single p.1 p.2).isPartOf .all := by
    decide
  exact List.all_eq_true.mp hparts p hp

lemma isBalancedInAll_of_plain {s : Text} (h : s.all Brackets.all.isPlain) : isBalancedInAll s :=
  List.all_eq_true.mpr fun _ hp => isBalanced_of_isPartOf (isPartOf_all hp) h

lemma isBalanced_single {o c : UInt8} (hp : (o, c) ∈ Brackets.all.pairs) {s : Text}
    (h : isBalancedInAll s) : isBalanced (.single o c) s :=
  List.all_eq_true.mp h (o, c) hp

lemma isBalancedInAll_append {s t : Text} (hs : isBalancedInAll s) (ht : isBalancedInAll t) :
    isBalancedInAll (s ++ t) :=
  List.all_eq_true.mpr fun p hp =>
    isBalanced_append (List.all_eq_true.mp hs p hp) (List.all_eq_true.mp ht p hp)

/-! ### Blocks -/

/-- A block goes on behind a text whose brackets match. -/
lemma blockRest?_of_after? {opening closing : UInt8} {q : Quoting} {d d' : ℕ} {s : Text}
    (h : Place.after? (.single opening closing) ⟨q, d⟩ s = some ⟨.code, d'⟩) (t : Text) :
    blockRest? opening closing q d (s ++ t) =
      (blockRest? opening closing .code d' t).map fun r => (s ++ r.1, r.2) := by
  induction s generalizing q d with
  | nil =>
    obtain ⟨rfl, rfl⟩ := Place.mk.inj (Option.some.inj h)
    simp
  | cons b s ih =>
    rw [Place.after?_cons, Option.bind_eq_some_iff] at h
    obtain ⟨⟨q₁, d₁⟩, hstep, hrest⟩ := h
    have hpass : (blockRest? opening closing q₁ d₁ (s ++ t)).map (consFirst b) =
        (blockRest? opening closing .code d' t).map fun r => (b :: s ++ r.1, r.2) := by
      rw [ih hrest, Option.map_map]
      rfl
    have hnext := Place.eq_step_of_step? hstep
    rw [List.cons_append, ← hpass]
    cases q with
    | inside q =>
      obtain ⟨rfl, rfl⟩ := Place.mk.inj hnext
      rfl
    | escape q =>
      obtain ⟨rfl, rfl⟩ := Place.mk.inj hnext
      rfl
    | code =>
      by_cases hquote : isQuote b
      · have hinside : (⟨q₁, d₁⟩ : Place) = ⟨.inside b, d⟩ := by
          simpa [Place.step, Quoting.step, hquote] using hnext
        obtain ⟨rfl, rfl⟩ := Place.mk.inj hinside
        rw [blockRest?_code, if_pos hquote]
      have hcode : (⟨q₁, d₁⟩ : Place) = ⟨.code, if b = opening then d + 1 else
          if b = closing then d - 1 else d⟩ := by
        simpa [Place.step, Quoting.step, hquote, Brackets.single] using hnext
      obtain ⟨rfl, rfl⟩ := Place.mk.inj hcode
      rw [blockRest?_code, if_neg hquote]
      split_ifs with hopening hclosing
      · rfl
      · cases d with
        | zero => simp [Place.step?, Brackets.single, hclosing] at hstep
        | succ d => rfl
      · rfl

/-- A text with matching brackets, put between such brackets, is read as a block. -/
lemma readBalanced?_of_isBalanced {opening closing : UInt8}
    (hproper : (Brackets.single opening closing).isProper) {s : Text}
    (h : isBalanced (.single opening closing) s) (t : Text) :
    readBalanced? opening closing (opening :: (s ++ closing :: t)) = some (s, t) := by
  have hbytes : isQuote opening = false ∧ isQuote closing = false ∧ closing ≠ opening := by
    simpa [Brackets.isProper, Brackets.pairs, Brackets.single, and_assoc] using hproper
  have hafter : Place.after? (.single opening closing) ⟨.code, 0⟩ s = some ⟨.code, 0⟩ := by
    simpa [isBalanced] using h
  rw [readBalanced?, if_pos ⟨rfl, by simp [hbytes.1]⟩, blockRest?_of_after? hafter,
    blockRest?_code, if_neg (by simp [hbytes.2.1]), if_neg hbytes.2.2, if_pos rfl]
  simp

end DtoSchema.Source
