import DtoSchema.Proofs.Text.Trimming
import DtoSchema.Text.Letter
import DtoSchema.Text.Symbol

/-!
# Characters and their small letters

The characters of a text that was written from characters are these (`chars_ofChars`), and a dot is
read where there is the byte of a dot only.  Lowering a character twice is lowering it once
(`Letter.toLower_toLower`), and no other character is lowered to one of the marks that stand between
words (`Letter.toLower_eq_mark_iff`).  Both are properties of the table, found by comparing its runs
two by two: no run is moved onto another one.
-/

namespace DtoSchema

open Text

/-! ### Reading what was written -/

/-- The encoding of a character is read as this character. -/
lemma Symbol.first_encode (c : Char) (s : Text) :
    ∃ b t, String.utf8EncodeChar c = b :: t ∧ Symbol.first b (t ++ s) = (.char c, t.length) := by
  obtain ⟨v, hv⟩ : ∃ v, v = c.toNat := ⟨_, rfl⟩
  have hvalid : v < 0xd800 ∨ 0xdfff < v ∧ v < 0x110000 := hv ▸ c.valid
  have hofNat : ∀ n, n = v → Char.ofNat n = c := fun n hn => by rw [hn, hv, Char.ofNat_toNat]
  have htail : ∀ x, (x % 64 + 128) % 256 = x % 64 + 128 := by omega
  have hbits : ∀ x, (x % 64 + 128) % 64 = x % 64 := by omega
  rw [String.utf8EncodeChar, ← Char.toNat, ← hv]
  split_ifs
  all_goals
    refine ⟨_, _, rfl, ?_⟩
    simp only [first, isTail, isSecond, tailBits, List.cons_append, List.nil_append,
      List.length_cons, List.length_nil, UInt8.lt_iff_toNat_lt, UInt8.le_iff_toNat_le,
      ← UInt8.toNat_inj, UInt8.toNat_ofNat', UInt8.reduceToNat, Bool.and_eq_true,
      decide_eq_true_eq, Nat.reducePow, htail, hbits]
  · rw [if_pos (by omega), hofNat _ (by omega)]
  · rw [if_neg (by omega), if_pos (by omega), if_pos (by omega), hofNat _ (by omega)]
  · rw [if_neg (by omega), if_neg (by omega), if_pos (by omega), if_pos, hofNat _ (by omega)]
    refine ⟨?_, by omega⟩
    split_ifs <;> simp <;> omega
  · rw [if_neg (by omega), if_neg (by omega), if_neg (by omega), if_pos (by omega), if_pos,
      hofNat _ (by omega)]
    refine ⟨⟨?_, by omega⟩, by omega⟩
    split_ifs <;> simp <;> omega

lemma Text.symbolsFrom_eq_drop (k : ℕ) (s : Text) : symbolsFrom k s = symbols (s.drop k) := by
  induction s generalizing k with
  | nil => simp [symbols, symbolsFrom]
  | cons b s ih =>
    cases k with
    | zero => rfl
    | succ k => exact ih k

lemma Text.chars_cons (b : UInt8) (s : Text) :
    chars (b :: s) = (Symbol.first b s).1.toChar :: chars (s.drop (Symbol.first b s).2) := by
  rw [chars, chars, ← symbolsFrom_eq_drop]
  rfl

lemma Text.chars_ofChars (cs : List Char) : chars (ofChars cs) = cs := by
  induction cs with
  | nil => rfl
  | cons c cs ih =>
    obtain ⟨b, t, hc, hfirst⟩ := Symbol.first_encode c (ofChars cs)
    have hwritten : ofChars (c :: cs) = b :: (t ++ ofChars cs) := by simp [ofChars, hc]
    rw [hwritten, chars_cons, hfirst, List.drop_left, ih]
    rfl

/-! ### Dots -/

/-- The character of a number that is none is the one with the number zero. -/
lemma toNat_ofNat_cases (n : ℕ) : (Char.ofNat n).toNat = n ∨ (Char.ofNat n).toNat = 0 := by
  rw [Char.toNat_ofNat]
  split <;> simp

/-- The first bytes that could begin an overlong form are followed by greater bytes. -/
lemma Symbol.le_of_isSecond {b c : UInt8} (h : isSecond b c) :
    (b.toNat = 0xe0 → 32 ≤ tailBits c) ∧ (b.toNat = 0xf0 → 16 ≤ tailBits c) := by
  simp only [isSecond, tailBits, ← UInt8.toNat_inj, UInt8.reduceToNat] at *
  constructor <;> intro hb <;>
    simp [hb, UInt8.le_iff_toNat_le] at h <;> omega

/-- A dot is read from its byte only: encodings of several bytes stand for greater numbers. -/
lemma Symbol.eq_dot_of_first {b : UInt8} {s : Text} (h : (Symbol.first b s).1.toChar = '.') :
    b = ascii '.' := by
  have hcode : ∀ n, Char.ofNat n = '.' → n = 46 := by
    intro n hn
    have hcases := toNat_ofNat_cases n
    rw [hn] at hcases
    exact (hcases.resolve_right (by decide)).symm
  have hstray : Symbol.toChar (.stray b) ≠ '.' := by simp [toChar]
  revert h
  fun_cases Symbol.first b s with
  | case1 => exact fun h => UInt8.toNat_inj.mp (hcode _ h)
  | case2 _ hlead =>
    intro h
    have hdot := hcode _ h
    simp only [Bool.and_eq_true, decide_eq_true_eq, UInt8.le_iff_toNat_le,
      UInt8.reduceToNat] at hlead
    omega
  | case5 _ _ hlead c d t hc =>
    intro h
    have hdot := hcode _ h
    simp only [Bool.and_eq_true, decide_eq_true_eq, UInt8.le_iff_toNat_le,
      UInt8.reduceToNat] at hlead hc
    have hsecond := le_of_isSecond hc.1
    omega
  | case8 _ _ _ hlead c d e t hc =>
    intro h
    have hdot := hcode _ h
    simp only [Bool.and_eq_true, decide_eq_true_eq, UInt8.le_iff_toNat_le,
      UInt8.reduceToNat] at hlead hc
    have hsecond := le_of_isSecond hc.1.1
    omega
  | _ => exact fun h => absurd h hstray

lemma Text.dot_notMem_chars {s : Text} (h : ascii '.' ∉ s) : '.' ∉ chars s := by
  suffices hfrom : ∀ k, '.' ∉ (symbolsFrom k s).map Symbol.toChar from hfrom 0
  induction s with
  | nil => simp [symbolsFrom]
  | cons b s ih =>
    rw [List.mem_cons, not_or] at h
    rintro (_ | k)
    · rw [symbolsFrom, List.map_cons, List.mem_cons, not_or]
      exact ⟨fun hdot => h.1 (Symbol.eq_dot_of_first hdot.symm).symm, ih h.2 _⟩
    · exact ih h.2 k

lemma Text.dot_notMem_ofChars {cs : List Char} (h : '.' ∉ cs) : ascii '.' ∉ ofChars cs := by
  have hvalue : (ascii '.').toNat = '.'.toNat ∧ '.'.toNat = 46 := ⟨rfl, rfl⟩
  rw [ofChars, List.mem_flatMap]
  rintro ⟨c, hc, hbyte⟩
  suffices hdot : c.toNat = '.'.toNat from h (Char.toNat_inj.mp hdot ▸ hc)
  rw [String.utf8EncodeChar, ← Char.toNat] at hbyte
  split_ifs at hbyte <;>
    simp only [List.mem_cons, List.not_mem_nil, or_false, ← UInt8.toNat_inj, UInt8.toNat_ofNat',
      Nat.reducePow, hvalue] at hbyte ⊢ <;>
    omega

namespace Letter

/-! ### Small letters -/

/-- No member of the run `r` is moved to a member of the run `r'`: what is moved lies below or above
the run, or both hold every second number and the numbers are of different parity. -/
def isAway (r r' : ℕ × ℕ × ℕ × ℤ) : Bool :=
  let up := r.2.2.2.toNat
  let down := (-r.2.2.2).toNat
  Nat.blt (r.2.1 + up) (r'.1 + down) || (Nat.blt (r'.2.1 + down) (r.1 + up) ||
    ((Nat.beq r.2.2.1 2 || Nat.beq r.1 r.2.1) && Nat.beq r'.2.2.1 2 &&
      Nat.beq ((r.1 + up + r'.1 + down) % 2) 1))

/-- The characters that separate names and words. -/
def marks : List Char := ['.', '_', '-', ' ', '$']

/-- A mark as a run of one member. -/
def markRun (m : Char) : ℕ × ℕ × ℕ × ℤ := (m.toNat, m.toNat, 1, 0)

/-- The run holds the character. -/
def holds (r : ℕ × ℕ × ℕ × ℤ) (c : Char) : Bool := inRun r.1 r.2.1 r.2.2.1 c.toNat

lemma isAway_of_mem : ∀ r ∈ lowerings, ∀ r' ∈ lowerings ++ marks.map markRun,
    0 < r'.1 ∧ isAway r r' := by
  have h : lowerings.all fun r => (lowerings ++ marks.map markRun).all (isAway r) := by
    decide +kernel
  have hpos : ∀ r' ∈ lowerings ++ marks.map markRun, 0 < r'.1 := by decide +kernel
  simp only [List.all_eq_true] at h
  exact fun r hr r' hr' => ⟨hpos r' hr', h r hr r' hr'⟩

lemma not_holds_of_isAway {r r' : ℕ × ℕ × ℕ × ℤ} (hpos : 0 < r'.1) (h : isAway r r') {c : Char}
    (hc : holds r c) : ¬ holds r' (Char.ofNat ((c.toNat : ℤ) + r.2.2.2).toNat) := by
  obtain ⟨first, last, step, d⟩ := r
  obtain ⟨first', last', step', d'⟩ := r'
  have hmoved := toNat_ofNat_cases ((c.toNat : ℤ) + d).toNat
  simp only [isAway, holds, inRun, Nat.blt_eq, Nat.beq_eq, Bool.and_eq_true, Bool.or_eq_true,
    decide_eq_true_eq, beq_iff_eq] at *
  rintro ⟨⟨hfirst, hlast⟩, hstep⟩
  rcases h with hbelow | habove | ⟨⟨hrun, rfl⟩, hodd⟩
  · omega
  · omega
  · rcases hrun with rfl | rfl <;> omega

/-- A character is its own small letter, or it is moved by a run that holds it. -/
lemma toLower_cases (c : Char) :
    toLower c = c ∨ ∃ r ∈ lowerings, holds r c ∧
      toLower c = Char.ofNat ((c.toNat : ℤ) + r.2.2.2).toNat := by
  unfold toLower
  split
  · next hfound =>
    have hholds := List.find?_some hfound
    exact .inr ⟨_, List.mem_of_find?_eq_some hfound, hholds, rfl⟩
  · exact .inl rfl

lemma toLower_toLower (c : Char) : toLower (toLower c) = toLower c := by
  obtain hself | ⟨r, hr, hc, hmoved⟩ := toLower_cases c
  · rw [hself, hself]
  · obtain hself | ⟨r', hr', hc', -⟩ := toLower_cases (toLower c)
    · exact hself
    · have haway := isAway_of_mem r hr r' (List.mem_append_left _ hr')
      exact absurd (hmoved ▸ hc') (not_holds_of_isAway haway.1 haway.2 hc)

/-- Only a mark is lowered to a mark, and to itself. -/
lemma toLower_eq_mark_iff {m : Char} (hm : m ∈ marks) (c : Char) : toLower c = m ↔ c = m := by
  have hmarks : marks.all fun m => lowerings.all fun r => !holds r m := by decide +kernel
  simp only [List.all_eq_true, Bool.not_eq_true'] at hmarks
  obtain hself | ⟨r, hr, hc, hmoved⟩ := toLower_cases c
  · rw [hself]
  constructor
  · intro h
    have haway := isAway_of_mem r hr _ (List.mem_append_right _ (List.mem_map_of_mem hm))
    refine absurd ?_ (not_holds_of_isAway haway.1 haway.2 hc)
    rw [← hmoved, h]
    simp [holds, markRun, inRun]
  · rintro rfl
    simp [hmarks c hm r hr] at hc

end Letter

end DtoSchema
