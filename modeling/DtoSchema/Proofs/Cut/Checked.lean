import DtoSchema.Proofs.Text.Trimming
import Mathlib.Tactic

/-!
# Checked cuts

Many functions of this library work on a text from its beginning on: they look at what stands there,
cut off a part of it, and go on with the rest.  `List.take` and `List.drop` have an answer for every
number, and a recursion that counts the bytes still to be passed comes to an end whatever it counts.
So the functions themselves do not show two things: that no cut reaches behind the end of its text,
and that each round of a scan leaves less than it found.

In a checked computation both are faults.  A place of a text is given by what stands behind it.
`advance` refuses to go behind the end, `passWord` refuses a word that does not stand at the place,
`upTo` refuses a place that is none of the text, and `loop` refuses a turn after which the rest is
not shorter.  A computation that comes to `.ok` therefore
stays inside of its texts, and each of its loops advances until it stops.  To show this of a loop it
is enough to say which value it computes from any place on, and that each turn keeps that value
(`loop_eq_ok`).
-/

namespace DtoSchema.Cut

open Text

/-- Why a checked computation breaks off. -/
inductive Fault where
  /-- A place outside of a text was asked for. -/
  | outside
  /-- A turn of a loop came no closer to the end of the text. -/
  | stalled
  deriving DecidableEq, Repr

abbrev Checked := Except Fault

variable {α β σ : Type}

@[simp] lemma ok_bind (a : α) (f : α → Checked β) : (Except.ok a >>= f : Checked β) = f a := rfl

@[simp] lemma pure_eq_ok (a : α) : (pure a : Checked α) = .ok a := rfl

/-- A checked computation for each member of a list. -/
lemma mapM_eq_ok {f : α → Checked β} {g : α → β} {xs : List α} (h : ∀ x ∈ xs, f x = .ok (g x)) :
    xs.mapM f = .ok (xs.map g) := by
  induction xs with
  | nil => rfl
  | cons x xs ih =>
    rw [List.mapM_cons, h x List.mem_cons_self, ok_bind,
      ih fun y hy => h y (List.mem_cons_of_mem x hy)]
    rfl

/-- The answers for the members of a list, where there are any. -/
def collect (f : α → Checked (Option β)) (xs : List α) : Checked (List β) := do
  return (← xs.mapM f).filterMap id

lemma collect_eq_ok {f : α → Checked (Option β)} {g : α → Option β} {xs : List α}
    (h : ∀ x ∈ xs, f x = .ok (g x)) : collect f xs = .ok (xs.filterMap g) := by
  rw [collect, mapM_eq_ok h, ok_bind, List.filterMap_map]
  rfl

/-! ### Places -/

/-- The place that is `n` bytes behind a place. -/
def advance (n : ℕ) (s : Text) : Checked Text :=
  if n ≤ s.length then .ok (s.drop n) else .error .outside

/-- The place behind a word, which has to stand at the place. -/
def passWord (word s : Text) : Checked Text :=
  match afterPrefix? word s with
  | some rest => .ok rest
  | none => .error .outside

/-- The text from a place up to the place before `rest`. -/
def upTo (rest s : Text) : Checked Text :=
  if rest.isSuffixOf s then .ok (s.take (s.length - rest.length)) else .error .outside

/-- The first `n` bytes of a text. -/
def first (n : ℕ) (s : Text) : Checked Text := do upTo (← advance n s) s

/-- The part of a text from the offset `i` up to the offset `j`. -/
def slice (s : Text) (i j : ℕ) : Checked Text := do upTo (← advance j s) (← advance i s)

lemma advance_eq {n : ℕ} {s : Text} (h : n ≤ s.length) : advance n s = .ok (s.drop n) := if_pos h

@[simp] lemma advance_append (t r : Text) : advance t.length (t ++ r) = .ok r := by
  rw [advance_eq (by simp), List.drop_left]

@[simp] lemma advance_one (b : UInt8) (s : Text) : advance 1 (b :: s) = .ok s :=
  advance_append [b] s

@[simp] lemma passWord_append (word s : Text) : passWord word (word ++ s) = .ok s := by
  rw [passWord, afterPrefix?_eq_some_iff.mpr rfl]

lemma upTo_eq {rest s : Text} (h : rest <:+ s) :
    upTo rest s = .ok (s.take (s.length - rest.length)) :=
  if_pos (List.isSuffixOf_iff_suffix.mpr h)

@[simp] lemma upTo_append (t r : Text) : upTo r (t ++ r) = .ok t := by
  rw [upTo_eq (List.suffix_append t r)]
  simp

lemma first_eq {n : ℕ} {s : Text} (h : n ≤ s.length) : first n s = .ok (s.take n) := by
  rw [first, advance_eq h, ok_bind, upTo_eq (List.drop_suffix n s), List.length_drop,
    Nat.sub_sub_self h]

/-- The part that stands at an offset. -/
lemma slice_of_drop {s t r : Text} {i : ℕ} (hi : i ≤ s.length) (h : s.drop i = t ++ r) :
    slice s i (i + t.length) = .ok t := by
  have hlength : t.length ≤ s.length - i := by
    rw [← List.length_drop, h, List.length_append]
    exact Nat.le_add_right _ _
  have hrest : s.drop (i + t.length) = r := by rw [← List.drop_drop, h, List.drop_left]
  rw [slice, advance_eq hi, advance_eq (by omega), hrest, h, ok_bind, ok_bind, upTo_append]

/-! ### Loops -/

/-- What a turn of a loop comes to. -/
inductive Turn (σ α : Type) where
  /-- The loop goes on at a place, with a state. -/
  | next (rest : Text) (state : σ)
  /-- The loop ends with a value. -/
  | stop (value : α)

/-- Takes turns from a place on, each of which has to leave less than it found. -/
def loop (turn : Text → σ → Checked (Turn σ α)) (s : Text) (state : σ) : Checked α :=
  match turn s state with
  | .error e => .error e
  | .ok (.stop value) => .ok value
  | .ok (.next rest later) =>
    if rest.length < s.length then loop turn rest later else .error .stalled
termination_by s.length

/-- A turn ends the loop with the value of its place and state, or it goes on at a later place and
with a state that have the same value, and about which the invariant holds. -/
def Keeps (invariant : Text → σ → Prop) (value : Text → σ → α) (s : Text) (state : σ)
    (turn : Checked (Turn σ α)) : Prop :=
  turn = .ok (.stop (value s state)) ∨
    ∃ rest later, turn = .ok (.next rest later) ∧ rest.length < s.length ∧ invariant rest later ∧
      value rest later = value s state

/-- A loop computes the value that its turns keep. -/
lemma loop_eq_ok {turn : Text → σ → Checked (Turn σ α)} (invariant : Text → σ → Prop)
    (value : Text → σ → α)
    (hturn : ∀ s state, invariant s state → Keeps invariant value s state (turn s state))
    {s : Text} {state : σ} (h : invariant s state) : loop turn s state = .ok (value s state) := by
  induction hn : s.length using Nat.strong_induction_on generalizing s state with
  | _ n ih =>
    rw [loop]
    rcases hturn s state h with hstop | ⟨rest, later, hnext, hlt, hlater, hvalue⟩
    · rw [hstop]
    · rw [hnext]
      simp only [if_pos hlt]
      rw [ih _ (hn ▸ hlt) hlater rfl, hvalue]

/-! ### Cuts that are made as often as they can be -/

/-- What is left when a cut is made as often as it can be, and the number of cuts. -/
def peel (cut? : Text → Option Text) (s : Text) : Checked (Text × ℕ) :=
  loop
    (fun s n => return match cut? s with
      | some t => .next t (n + 1)
      | none => .stop (s, n))
    s 0

/-- Makes a cut as often as it can be made, but no more than `limit` times. -/
def peelWithin (cut? : Text → Option Text) : (limit : ℕ) → Text → Text × ℕ
  | 0, s => (s, 0)
  | limit + 1, s =>
    match cut? s with
    | some t => ((peelWithin cut? limit t).1, (peelWithin cut? limit t).2 + 1)
    | none => (s, 0)

section
variable {cut? : Text → Option Text}

lemma peelWithin_of_none {s : Text} (h : cut? s = none) (limit : ℕ) :
    peelWithin cut? limit s = (s, 0) := by
  cases limit with
  | zero => rfl
  | succ limit => rw [peelWithin, h]

variable (hcut : ∀ s t, cut? s = some t → t.length < s.length)

include hcut

/-- As many cuts as the text is long are enough. -/
lemma peelWithin_of_le {limit : ℕ} {s : Text} (h : s.length ≤ limit) :
    peelWithin cut? limit s = peelWithin cut? s.length s := by
  induction limit using Nat.strong_induction_on generalizing s with
  | _ limit ih =>
    cases hsome : cut? s with
    | none => rw [peelWithin_of_none hsome, peelWithin_of_none hsome]
    | some t =>
      have hlt := hcut s t hsome
      obtain ⟨n, hn⟩ : ∃ n, s.length = n + 1 := ⟨s.length - 1, by omega⟩
      obtain ⟨m, rfl⟩ : ∃ m, limit = m + 1 := ⟨limit - 1, by omega⟩
      rw [hn, peelWithin, peelWithin, hsome]
      simp only
      rw [ih m (Nat.lt_succ_self m) (by omega), ih n (by omega) (by omega)]

lemma peel_eq (s : Text) : peel cut? s = .ok (peelWithin cut? s.length s) := by
  refine (loop_eq_ok (fun _ _ => True) (fun s n => ((peelWithin cut? s.length s).1,
    n + (peelWithin cut? s.length s).2)) ?_ trivial).trans (by simp)
  intro s n _
  simp only [Keeps]
  cases hsome : cut? s with
  | none => exact .inl (by rw [peelWithin_of_none hsome]; rfl)
  | some t =>
    have hlt := hcut s t hsome
    refine .inr ⟨t, n + 1, rfl, hlt, trivial, ?_⟩
    obtain ⟨m, hm⟩ : ∃ m, s.length = m + 1 := ⟨s.length - 1, by omega⟩
    rw [hm, peelWithin, hsome]
    simp only
    rw [peelWithin_of_le hcut (show t.length ≤ m by omega)]
    simp only [Prod.mk.injEq, true_and]
    omega

end

end DtoSchema.Cut
