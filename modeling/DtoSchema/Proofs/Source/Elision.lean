import DtoSchema.Source.Comments
import DtoSchema.Proofs.Source.Name
import DtoSchema.Proofs.Text.WhiteSpace

/-!
# Texts with emptied strings

Two sources that differ only in what stands between the quotes of their strings have a common
elision: the text in which these strings are empty.  `Elides ok m s r` says that `r` is `s` with some
of its strings emptied, each of which held only inert bytes and a content of the class `ok`.

An inert byte is one that no scanner looks for, so it makes no difference whether a scanner takes a
string for a string or has mistaken its quotes: it leaves both texts in the same state.  For every
scanner of a source there is a lemma that it cuts a text and its elision at corresponding places.

Blanking a block writes a space for each of its bytes, so the runs of spaces in blanked texts have
different lengths.  The index `m` says where such runs may occur: nowhere, or only from a brace on as
far as spaces and line feeds reach.
-/

namespace DtoSchema.Source

open Text

/-! ### Related answers -/

section Answers

variable {α β γ δ : Type} {R : α → β → Prop} {S : γ → δ → Prop}

lemma rel_bind {x : Option α} {y : Option β} (h : Option.Rel R x y) {f : α → Option γ}
    {g : β → Option δ} (hf : ∀ a b, R a b → Option.Rel S (f a) (g b)) :
    Option.Rel S (x.bind f) (y.bind g) := by
  cases h with
  | none => exact .none
  | some h => exact hf _ _ h

lemma rel_map {x : Option α} {y : Option β} (h : Option.Rel R x y) {f : α → γ} {g : β → δ}
    (hf : ∀ a b, R a b → S (f a) (g b)) : Option.Rel S (x.map f) (y.map g) := by
  cases h with
  | none => exact .none
  | some h => exact .some (hf _ _ h)

lemma rel_or {x x' : Option α} {y y' : Option β} (h : Option.Rel R x y) (h' : Option.Rel R x' y') :
    Option.Rel R (x.or x') (y.or y') := by
  cases h with
  | none => exact h'
  | some h => exact .some h

lemma rel_cases {x : Option α} {y : Option β} (h : Option.Rel R x y) :
    (x = none ∧ y = none) ∨ ∃ a b, x = some a ∧ y = some b ∧ R a b := by
  cases h with
  | none => exact Or.inl ⟨rfl, rfl⟩
  | some h => exact Or.inr ⟨_, _, rfl, rfl, h⟩

lemma rel_of_eq {x y : Option α} (h : x = y) : Option.Rel (· = ·) x y := by
  subst h
  cases x with
  | none => exact .none
  | some a => exact .some rfl

lemma any_eq_of_rel {x : Option α} {y : Option β} (h : Option.Rel R x y) {p : α → Bool}
    {q : β → Bool} (hp : ∀ a b, R a b → p a = q b) : x.any p = y.any q := by
  cases h with
  | none => rfl
  | some h => exact hp _ _ h

lemma isSome_eq_of_rel {x : Option α} {y : Option β} (h : Option.Rel R x y) :
    x.isSome = y.isSome := by
  cases h <;> rfl

end Answers

/-! ### Emptied strings -/

/-- The bytes that no scanner of a source looks for. -/
def isInert (b : UInt8) : Bool := !isQuote b && b ∉ utf8 "\\\n()[]\x7b\x7d<>,;=@/$"

/-- Where runs of spaces may have been shortened. -/
inductive Spacing where
  /-- Nowhere. -/
  | kept
  /-- Behind a brace that follows. -/
  | outside
  /-- Here, and behind a brace that follows. -/
  | inside
  deriving DecidableEq

namespace Spacing

/-- Where runs of spaces may have been shortened behind one more byte. -/
def next : Spacing → UInt8 → Spacing
  | .kept, _ => .kept
  | .outside, b => if b = ascii '\x7b' then .inside else .outside
  | .inside, b =>
    if b = ascii '\x7b' ∨ b = ascii ' ' ∨ b = ascii '\n' then .inside else .outside

/-- What is left of the spacing behind a byte that belongs to no block. -/
def base : Spacing → Spacing
  | .kept => .kept
  | _ => .outside

/-- The most that the spacing can become. -/
def most : Spacing → Spacing
  | .kept => .kept
  | _ => .inside

variable (m : Spacing) (b : UInt8)

@[simp] lemma base_base : m.base.base = m.base := by cases m <;> rfl

@[simp] lemma most_base : m.base.most = m.most := by cases m <;> rfl

@[simp] lemma base_most : m.most.base = m.base := by cases m <;> rfl

@[simp] lemma most_most : m.most.most = m.most := by cases m <;> rfl

@[simp] lemma next_kept : kept.next b = kept := rfl

@[simp] lemma base_kept : kept.base = kept := rfl

@[simp] lemma foldl_kept (a : Text) : a.foldl next kept = kept := by
  induction a with
  | nil => rfl
  | cons b a ih => exact ih

@[simp] lemma most_kept : kept.most = kept := rfl

@[simp] lemma most_inside : inside.most = inside := rfl

@[simp] lemma base_next : (m.next b).base = m.base := by
  cases m with
  | kept => rfl
  | _ =>
    simp only [next]
    split <;> rfl

@[simp] lemma most_next : (m.next b).most = m.most := by
  cases m with
  | kept => rfl
  | _ =>
    simp only [next]
    split <;> rfl

/-- The byte neither opens a block nor belongs to the blanks in one. -/
def isQuiet (b : UInt8) : Bool := b != ascii '\x7b' && b != ascii ' ' && b != ascii '\n'

variable {b} in
lemma next_eq_base (hb : isQuiet b) : m.next b = m.base := by
  simp only [isQuiet, Bool.and_eq_true, bne_iff_ne] at hb
  cases m with
  | kept => rfl
  | outside => exact if_neg hb.1.1
  | inside => exact if_neg (by tauto)

lemma foldl_eq_base {a : Text} (hne : a ≠ []) (ha : a.all isQuiet) : a.foldl next m = m.base := by
  induction a generalizing m with
  | nil => exact absurd rfl hne
  | cons b a ih =>
    simp only [List.all_cons, Bool.and_eq_true] at ha
    rw [List.foldl_cons, next_eq_base m ha.1]
    cases a with
    | nil => rfl
    | cons c a => rw [ih m.base (by simp) ha.2, base_base]

end Spacing

/-- The second text is the first one with some of its strings emptied and some of its runs of spaces
shortened. -/
inductive Elides (ok : Text → Bool) : Spacing → Text → Text → Prop
  | nil {m : Spacing} : Elides ok m [] []
  | byte {m : Spacing} (b : UInt8) {s r : Text} :
      Elides ok (m.next b) s r → Elides ok m (b :: s) (b :: r)
  | string {m : Spacing} {c s r : Text} : c.all isInert → ok c → Elides ok m.base s r →
      Elides ok m (ascii '"' :: (c ++ ascii '"' :: s)) (ascii '"' :: ascii '"' :: r)
  | blanks (n : ℕ) {s r : Text} : Elides ok .inside s r →
      Elides ok .inside (List.replicate (n + 1) (ascii ' ') ++ s) (ascii ' ' :: r)

namespace Elides

variable {ok : Text → Bool} {m : Spacing} {s t r u : Text}

lemma refl (s : Text) : Elides ok m s s := by
  induction s generalizing m with
  | nil => exact .nil
  | cons b s ih => exact .byte b ih

/-! ### Spacing -/

lemma inside (h : Elides ok .outside s r) : Elides ok .inside s r := by
  generalize hm : Spacing.outside = m at h
  induction h with
  | nil => exact .nil
  | @byte m b s r h ih =>
    subst hm
    refine .byte b ?_
    by_cases hb : b = ascii '\x7b'
    · simpa [Spacing.next, hb] using h
    · have hout : Spacing.outside.next b = .outside := if_neg hb
      by_cases hspace : b = ascii ' ' ∨ b = ascii '\n'
      · simpa [Spacing.next, hspace] using ih hout.symm
      · simpa [Spacing.next, hb, hspace] using h
  | string hc hok h _ =>
    subst hm
    exact .string hc hok h
  | blanks => simp at hm

lemma of_base (h : Elides ok m.base s r) : Elides ok m s r := by
  cases m with
  | inside => exact h.inside
  | _ => exact h

lemma most (h : Elides ok m s r) : Elides ok m.most s r := by
  cases m with
  | outside => exact h.inside
  | _ => exact h

lemma of_kept (h : Elides ok .kept s r) : Elides ok m s r := by
  generalize hk : Spacing.kept = k at h
  induction h generalizing m with
  | nil => exact .nil
  | byte b _ ih => exact .byte b (ih (by rw [← hk]; rfl))
  | string hc hok _ ih => exact .string hc hok (ih (by rw [← hk]; rfl))
  | blanks => simp at hk

/-- A text that starts with neither a space nor a line feed starts with no shortened run. -/
lemma base (h : Elides ok m s r)
    (hs : s.head?.any (fun b => b == ascii ' ' || b == ascii '\n') = false) :
    Elides ok m.base s r := by
  cases m with
  | inside =>
    cases h with
    | nil => exact .nil
    | byte b h =>
      have hb : b ≠ ascii ' ' ∧ b ≠ ascii '\n' := by simpa using hs
      refine .byte b ?_
      simpa [Spacing.next, Spacing.base, hb] using h
    | string hc hok h => exact .string hc hok h
    | blanks n => simp [List.replicate_succ] at hs
  | _ => exact h

/-- Without a brace no run is shortened. -/
lemma kept (h : Elides ok .outside s r) (hs : ascii '\x7b' ∉ s) : Elides ok .kept s r := by
  generalize hm : Spacing.outside = m at h
  induction h with
  | nil => exact .nil
  | @byte m b s r h ih =>
    subst hm
    simp only [List.mem_cons, not_or] at hs
    exact .byte b (ih hs.2 (if_neg (Ne.symm hs.1)).symm)
  | string hc hok _ ih =>
    subst hm
    simp only [List.mem_cons, List.mem_append, not_or] at hs
    exact .string hc hok (ih hs.2.2.2 rfl)
  | blanks => simp at hm

lemma append (h : Elides ok m s r) (h' : Elides ok m.base t u) :
    Elides ok m (s ++ t) (r ++ u) := by
  induction h with
  | nil => exact h'.of_base
  | byte b _ ih => exact .byte b (ih (by simpa using h'))
  | string hc hok _ ih => simpa using Elides.string hc hok (ih (by simpa using h'))
  | blanks n _ ih => simpa using Elides.blanks n (ih h')

lemma prepend (a : Text) (h : Elides ok (a.foldl Spacing.next m) s r) :
    Elides ok m (a ++ s) (a ++ r) := by
  induction a generalizing m with
  | nil => exact h
  | cons b a ih => exact .byte b (ih h)

/-- The elision of a reversed text empties the reversed contents. -/
lemma reverse (h : Elides ok .kept s r) :
    Elides (fun c => ok c.reverse) .kept s.reverse r.reverse := by
  generalize hm : Spacing.kept = m at h
  induction h with
  | nil => exact .nil
  | byte b _ ih =>
    subst hm
    simpa using (ih rfl).append (.byte b .nil)
  | @string m c s r hc hk _ ih =>
    subst hm
    have hchunk : Elides (fun c => ok c.reverse) .kept
        (ascii '"' :: (c.reverse ++ ascii '"' :: [])) [ascii '"', ascii '"'] :=
      .string (by simpa using hc) (by simpa using hk) .nil
    simpa using (ih rfl).append hchunk
  | blanks => simp at hm

/-- Reversing back gives the contents back. -/
lemma of_reverse (h : Elides (fun c => ok c.reverse) .kept s.reverse r.reverse) :
    Elides ok .kept s r := by
  simpa using h.reverse

/-! ### First and last bytes -/

lemma head?_eq (h : Elides ok m s r) : s.head? = r.head? := by
  cases h with
  | blanks n => simp [List.replicate_succ]
  | _ => rfl

lemma getLast?_eq (h : Elides ok .kept s r) : s.getLast? = r.getLast? := by
  have hrev := h.reverse.head?_eq
  rwa [List.head?_reverse, List.head?_reverse] at hrev

lemma eq_nil_iff (h : Elides ok m s r) : s = [] ↔ r = [] := by
  have hhead := h.head?_eq
  rw [← List.head?_eq_none_iff, hhead, List.head?_eq_none_iff]

lemma isEmpty_eq (h : Elides ok m s r) : s.isEmpty = r.isEmpty := by
  rw [Bool.eq_iff_iff, List.isEmpty_iff, List.isEmpty_iff, h.eq_nil_iff]

/-- A byte that starts neither a string nor a run of spaces starts both texts. -/
lemma of_cons {b : UInt8} (h : Elides ok m (b :: s) r) (hb : b ≠ ascii '"')
    (hsp : m = .inside → b ≠ ascii ' ') : ∃ r', r = b :: r' ∧ Elides ok (m.next b) s r' := by
  generalize hx : b :: s = x at h
  cases h with
  | nil => simp at hx
  | byte c h =>
    obtain ⟨rfl, rfl⟩ := List.cons.inj hx
    exact ⟨_, rfl, h⟩
  | string => exact absurd (List.cons.inj hx).1 hb
  | blanks n h =>
    rw [List.replicate_succ, List.cons_append] at hx
    exact absurd (List.cons.inj hx).1 (hsp rfl)

/-- The text can start both a text and its elision: it holds neither quotes nor spaces. -/
def isSteady (p : Text) : Bool := ascii '"' ∉ p && ascii ' ' ∉ p

lemma isSteady_cons {a : UInt8} {p : Text} :
    isSteady (a :: p) ↔ a ≠ ascii '"' ∧ a ≠ ascii ' ' ∧ isSteady p := by
  simp only [isSteady, Bool.and_eq_true, decide_eq_true_eq, List.mem_cons, not_or, ne_eq,
    eq_comm (a := a)]
  tauto

lemma of_append {a : Text} (h : Elides ok m (a ++ s) r) (ha : isSteady a) :
    ∃ r', r = a ++ r' ∧ Elides ok (a.foldl Spacing.next m) s r' := by
  induction a generalizing m r with
  | nil => exact ⟨r, rfl, h⟩
  | cons b a ih =>
    obtain ⟨hquote, hspace, ha⟩ := isSteady_cons.mp ha
    obtain ⟨r₁, rfl, h₁⟩ := of_cons h hquote fun _ => hspace
    obtain ⟨r₂, rfl, h₂⟩ := ih h₁ ha
    exact ⟨r₂, rfl, h₂⟩

/-- A text without strings and spaces is its own elision, and the elision of no other text. -/
lemma eq_of_isSteady (h : Elides ok m s r) (hs : isSteady s ∨ isSteady r) : s = r := by
  induction h with
  | nil => rfl
  | byte b _ ih =>
    simp only [isSteady_cons] at hs
    rw [ih (by tauto)]
  | string => simp [isSteady] at hs
  | blanks => simp [isSteady] at hs

lemma of_append_kept {a : Text} (h : Elides ok .kept (a ++ s) r) (ha : ascii '"' ∉ a) :
    ∃ r', r = a ++ r' ∧ Elides ok .kept s r' := by
  induction a generalizing r with
  | nil => exact ⟨r, rfl, h⟩
  | cons b a ih =>
    simp only [List.mem_cons, not_or] at ha
    obtain ⟨r₁, rfl, h₁⟩ := of_cons h (Ne.symm ha.1) (by simp)
    obtain ⟨r₂, rfl, h₂⟩ := ih h₁ ha.2
    exact ⟨r₂, rfl, h₂⟩

/-- A text without strings is its own elision. -/
lemma eq_of_not_mem (h : Elides ok .kept s r) (hs : ascii '"' ∉ s) : r = s := by
  rw [← List.append_nil s] at h
  obtain ⟨r', rfl, h'⟩ := h.of_append_kept hs
  rw [h'.eq_nil_iff.mp rfl, List.append_nil]

lemma most_foldl (a : Text) : (a.foldl Spacing.next m).most = m.most := by
  induction a generalizing m with
  | nil => rfl
  | cons b a ih => simpa using ih (m := m.next b)

/-! ### Runs of bytes of a class -/

section Runs

variable {p : UInt8 → Bool}

lemma dropWhile (h : Elides ok m s r) (hp : p (ascii '"') = false) :
    Elides ok m.most (s.dropWhile p) (r.dropWhile p) := by
  induction h with
  | nil => exact .nil
  | @byte m b s r h ih =>
    by_cases hb : p b
    · simpa [hb] using ih
    · simpa [hb] using (Elides.byte b h).most
  | string hc hok h _ => simpa [hp] using (Elides.string hc hok h).most
  | @blanks n s r h ih =>
    by_cases hb : p (ascii ' ')
    · have hall : ∀ b ∈ List.replicate (n + 1) (ascii ' '), p b = true := by simp [hb]
      simpa [List.dropWhile_append_of_pos hall, hb] using ih
    · simpa [List.replicate_succ, hb] using Elides.blanks n h

lemma takeWhile (h : Elides ok m s r) (hp : p (ascii '"') = false) :
    Elides ok m (s.takeWhile p) (r.takeWhile p) := by
  induction h with
  | nil => exact .nil
  | @byte m b s r h ih =>
    by_cases hb : p b
    · simpa [hb] using Elides.byte b ih
    · simpa [hb] using Elides.nil
  | string hc hok h _ => simpa [hp] using Elides.nil
  | @blanks n s r h ih =>
    by_cases hb : p (ascii ' ')
    · have hall : ∀ b ∈ List.replicate (n + 1) (ascii ' '), p b = true := by simp [hb]
      simpa [List.takeWhile_append_of_pos hall, hb] using Elides.blanks n ih
    · simpa [List.replicate_succ, hb] using Elides.nil

lemma takeWhile_eq (h : Elides ok m s r) (hp : p (ascii '"') = false)
    (hspace : p (ascii ' ') = false) : s.takeWhile p = r.takeWhile p := by
  induction h with
  | nil => rfl
  | @byte m b s r h ih => by_cases hb : p b <;> simp [hb, ih]
  | string => simp [hp]
  | blanks n => simp [List.replicate_succ, hspace]

lemma takeWhile_kept (h : Elides ok .kept s r) (hp : p (ascii '"') = false) :
    s.takeWhile p = r.takeWhile p := by
  refine ((h.takeWhile hp).eq_of_not_mem fun hmem => ?_).symm
  simp [List.mem_takeWhile_imp hmem] at hp

end Runs

lemma skipGaps (h : Elides ok m s r) :
    Elides ok m.most (Source.skipGaps s) (Source.skipGaps r) := h.dropWhile (by decide)

/-- The identifiers at the starts are the same. -/
lemma identAt_eq (h : Elides ok m s r) : identAt s = identAt r := by
  cases h with
  | nil => rfl
  | @byte _ b s r h =>
    have htake : s.takeWhile isIdentPart = r.takeWhile isIdentPart :=
      h.takeWhile_eq (by decide) (by decide)
    simp [identAt, htake]
  | string => simp [identAt_eq_nil (show isIdentStart (ascii '"') = false by decide)]
  | blanks n =>
    have hspace : isIdentStart (ascii ' ') = false := by decide
    simp [List.replicate_succ, identAt_eq_nil hspace]

lemma leadingIdent_eq (h : Elides ok m s r) : leadingIdent s = leadingIdent r :=
  h.skipGaps.identAt_eq

/-! ### Prefixes -/

lemma afterPrefix? {p : Text} (h : Elides ok m s r) (hp : isSteady p) :
    Option.Rel (Elides ok (p.foldl Spacing.next m)) (Text.afterPrefix? p s)
      (Text.afterPrefix? p r) := by
  induction p generalizing m s r with
  | nil => exact .some h
  | cons a p ih =>
    obtain ⟨hquote, hspace, hp⟩ := isSteady_cons.mp hp
    cases s with
    | nil =>
      obtain rfl := h.eq_nil_iff.mp rfl
      exact .none
    | cons b s =>
      by_cases hab : a = b
      · subst hab
        obtain ⟨r', rfl, h'⟩ := h.of_cons hquote fun _ => hspace
        simpa [Text.afterPrefix?] using ih h' hp
      · have hhead := h.head?_eq
        cases r with
        | nil => simp at hhead
        | cons c r =>
          obtain rfl : b = c := by simpa using hhead
          simp [Text.afterPrefix?, hab]

lemma isPrefixOf_eq {p : Text} (h : Elides ok m s r) (hp : isSteady p) :
    p.isPrefixOf s = p.isPrefixOf r := by
  have hiff : ∀ t : Text, p.isPrefixOf t = (Text.afterPrefix? p t).isSome := by
    intro t
    rw [Bool.eq_iff_iff, List.isPrefixOf_iff_prefix, Option.isSome_iff_exists]
    exact exists_congr fun u => by rw [afterPrefix?_eq_some_iff, eq_comm]
  rw [hiff, hiff, isSome_eq_of_rel (h.afterPrefix? hp)]

end Elides

/-! ### White space at the ends -/

namespace Elides

variable {ok : Text → Bool} {m : Spacing} {s t r u : Text}

/-- A space is one of the encodings, and every other one can start both a text and its elision. -/
def areSpaces (encodings : List Text) : Bool :=
  isCode encodings && encodings.contains [ascii ' '] &&
    encodings.all fun e => e == [ascii ' '] || isSteady e

lemma areSpaces_spaces : areSpaces spaces := by decide

section Spaces

variable {encodings : List Text}

lemma isCode_of_areSpaces (h : areSpaces encodings) : isCode encodings := by
  simp only [areSpaces, Bool.and_eq_true] at h
  exact h.1.1

lemma space_mem (h : areSpaces encodings) : [ascii ' '] ∈ encodings := by
  simp only [areSpaces, Bool.and_eq_true, List.contains_iff_mem] at h
  exact h.1.2

lemma isSteady_of_mem (h : areSpaces encodings) {e : Text} (he : e ∈ encodings) :
    e = [ascii ' '] ∨ isSteady e := by
  simp only [areSpaces, Bool.and_eq_true] at h
  simpa using List.all_eq_true.mp h.2 e he

/-- White space at the starts of a text and its elision: there is none, or the same encoding, or a
run of spaces. -/
lemma leading_cases (henc : areSpaces encodings) (h : Elides ok m s r) :
    (leadingWidth encodings s = 0 ∧ leadingWidth encodings r = 0) ∨
      (∃ e ∈ encodings, ∃ s' r', e ≠ [] ∧ s = e ++ s' ∧ r = e ++ r' ∧ Elides ok m.most s' r') ∨
      ∃ n s' r', s = List.replicate (n + 1) (ascii ' ') ++ s' ∧ r = ascii ' ' :: r' ∧
        Elides ok m.most s' r' := by
  have hcode := isCode_of_areSpaces henc
  by_cases hspace : s.head? = some (ascii ' ')
  · refine Or.inr (Or.inr ?_)
    cases h with
    | nil => simp at hspace
    | byte b h =>
      obtain rfl : b = ascii ' ' := by simpa using hspace
      exact ⟨0, _, _, rfl, rfl, by simpa using h.most⟩
    | string => exact absurd (Option.some.inj hspace) (by decide)
    | blanks n h => exact ⟨n, _, _, rfl, rfl, h⟩
  · rcases leadingWidth_cases hcode s with ⟨hs, hnone⟩ | ⟨e, he, s', hne, rfl⟩
    · refine Or.inl ⟨hs, ?_⟩
      rcases leadingWidth_cases hcode r with ⟨hr, -⟩ | ⟨e, he, r', hne, rfl⟩
      · exact hr
      · -- the elision does not start with an encoding either
        rcases isSteady_of_mem henc he with rfl | hsteady
        · exact absurd (by simpa using h.head?_eq) hspace
        · have hstart := h.isPrefixOf_eq hsteady
          rw [List.isPrefixOf_iff_prefix.mpr (List.prefix_append e r')] at hstart
          exact absurd (List.isPrefixOf_iff_prefix.mp hstart) (hnone e he)
    · rcases isSteady_of_mem henc he with rfl | hsteady
      · simp at hspace
      · obtain ⟨r', rfl, h'⟩ := h.of_append hsteady
        exact Or.inr (Or.inl ⟨e, he, s', r', hne, rfl, rfl, by simpa [most_foldl] using h'.most⟩)

end Spaces

lemma trimStart (h : Elides ok m s r) :
    Elides ok m.base (Text.trimStart s) (Text.trimStart r) := by
  have hgap : ∀ t : Text, (Text.trimStart t).head?.any
      (fun b => b == ascii ' ' || b == ascii '\n') = false := by
    intro t
    have hhead := head?_trimStart t
    cases ht : Text.trimStart t with
    | nil => rfl
    | cons b t => simp_all [isGap]
  suffices hmost : Elides ok m.most (Text.trimStart s) (Text.trimStart r) by
    simpa using hmost.base (hgap s)
  have hspaces : ∀ (n : ℕ) (t : Text),
      Text.trimStart (List.replicate n (ascii ' ') ++ t) = Text.trimStart t := by
    intro n t
    induction n with
    | zero => rfl
    | succ n ih =>
      rw [List.replicate_succ, List.cons_append, ← ih]
      exact dropLeading_append isCode_spaces (e := [ascii ' ']) (by decide) (by simp) _
  induction hn : s.length using Nat.strong_induction_on generalizing m s r with
  | _ n ih =>
    rcases h.leading_cases areSpaces_spaces with ⟨hs, hr⟩ | ⟨e, he, s', r', hne, rfl, rfl, h'⟩ |
      ⟨k, s', r', rfl, rfl, h'⟩
    · rw [Text.trimStart, Text.trimStart, dropLeading_stay hs, dropLeading_stay hr]
      exact h.most
    · rw [Text.trimStart, Text.trimStart, dropLeading_append isCode_spaces he hne,
        dropLeading_append isCode_spaces he hne]
      have hpos := List.length_pos_iff.mpr hne
      simp only [List.length_append] at hn
      simpa [Text.trimStart] using ih s'.length (by omega) h' rfl
    · have hone := hspaces 1 r'
      rw [hspaces, show ascii ' ' :: r' = List.replicate 1 (ascii ' ') ++ r' from rfl, hone]
      simp only [List.length_append, List.length_replicate] at hn
      simpa using ih s'.length (by omega) h' rfl

/-- White space that holds a quote is none. -/
lemma not_mem_spaces {e : Text} (he : ascii '"' ∈ e) : e ∉ spaces := by
  intro hmem
  rcases isSteady_of_mem areSpaces_spaces hmem with rfl | hsteady
  · exact absurd (List.mem_singleton.mp he) (by decide)
  · simp [isSteady, he] at hsteady

lemma trimEnd (h : Elides ok m s r) : Elides ok m (Text.trimEnd s) (Text.trimEnd r) := by
  induction h with
  | nil => exact .nil
  | @byte m b s r _ ih =>
    -- white space has no string in it, so both ends are trimmed away or none is
    have hsame : b :: Text.trimEnd s ∈ spaces ∨ b :: Text.trimEnd r ∈ spaces →
        Text.trimEnd s = Text.trimEnd r := by
      have hrest : ∀ {t : Text}, b :: t ∈ spaces → t = [] ∨ isSteady t := by
        intro t hmem
        rcases isSteady_of_mem areSpaces_spaces hmem with h | h
        · exact Or.inl (List.cons.inj h).2
        · exact Or.inr (isSteady_cons.mp h).2.2
      rintro (hmem | hmem) <;> rcases hrest hmem with hnil | hsteady
      · rw [hnil, ih.eq_nil_iff.mp hnil]
      · exact ih.eq_of_isSteady (Or.inl hsteady)
      · rw [hnil, ih.eq_nil_iff.mpr hnil]
      · exact ih.eq_of_isSteady (Or.inr hsteady)
    have hmem : b :: Text.trimEnd s ∈ spaces ↔ b :: Text.trimEnd r ∈ spaces :=
      ⟨fun h => hsame (Or.inl h) ▸ h, fun h => hsame (Or.inr h) ▸ h⟩
    rw [trimEnd_cons, trimEnd_cons]
    by_cases hs : b :: Text.trimEnd s ∈ spaces
    · rw [if_pos hs, if_pos (hmem.mp hs)]
      exact .nil
    · rw [if_neg hs, if_neg fun hr => hs (hmem.mpr hr)]
      exact .byte b ih
  | @string m c s r hc hok _ ih =>
    have hquote : ∀ t : Text, Text.trimEnd (ascii '"' :: t) = ascii '"' :: Text.trimEnd t := by
      intro t
      rw [trimEnd_cons, if_neg (not_mem_spaces (by simp))]
    have hcontent : ∀ c : Text, Text.trimEnd (c ++ ascii '"' :: s) =
        c ++ ascii '"' :: Text.trimEnd s := by
      intro c
      induction c with
      | nil => exact hquote s
      | cons b c ihc =>
        rw [List.cons_append, trimEnd_cons, ihc, if_neg (not_mem_spaces (by simp))]
        rfl
    rw [hquote, hcontent, hquote, hquote]
    exact .string hc hok ih
  | @blanks n s r _ ih =>
    have hspace : ∀ t : Text, ascii ' ' :: t ∈ spaces ↔ t = [] := by
      intro t
      constructor
      · intro hmem
        rcases isSteady_of_mem areSpaces_spaces hmem with h | h
        · exact (List.cons.inj h).2
        · exact absurd rfl (isSteady_cons.mp h).2.1
      · rintro rfl
        decide
    have hrun : ∀ (n : ℕ) (t : Text), Text.trimEnd (List.replicate n (ascii ' ') ++ t) =
        if Text.trimEnd t = [] then [] else List.replicate n (ascii ' ') ++ Text.trimEnd t := by
      intro n t
      induction n with
      | zero => by_cases ht : Text.trimEnd t = [] <;> simp [ht]
      | succ n ihn =>
        rw [List.replicate_succ, List.cons_append, trimEnd_cons, ihn]
        by_cases ht : Text.trimEnd t = [] <;> simp [ht, hspace]
    have hone := hrun 1 r
    rw [hrun, show ascii ' ' :: r = List.replicate 1 (ascii ' ') ++ r from rfl, hone]
    by_cases hs : Text.trimEnd s = []
    · rw [if_pos hs, if_pos (ih.eq_nil_iff.mp hs)]
      exact .nil
    · rw [if_neg hs, if_neg fun hr => hs (ih.eq_nil_iff.mpr hr)]
      exact .blanks n ih

lemma trim (h : Elides ok m s r) : Elides ok m.base (Text.trim s) (Text.trim r) :=
  h.trimStart.trimEnd

end Elides

end DtoSchema.Source
