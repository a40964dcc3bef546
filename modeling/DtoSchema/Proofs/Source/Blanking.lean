import DtoSchema.Proofs.Mark.StringLiteral

/-!
# Blanking shows what stands outside of blocks

Blanking follows a text with a count of the open blocks that never falls below zero.  Which bytes
stand inside of a block is said here without that count (`InBlock`): a brace opens the block, and no
beginning of what stands behind it closes more blocks than it opens.  The count and the braces agree
as long as a block is open (`Place.depth_after_of_pos`), and the count is never behind
(`Place.le_depth_after`).

A blanked block holds spaces and line feeds only, so a second scan finds one open block where the
first one found any (`Place.shown`), and nothing is left to blank.
-/

namespace DtoSchema.Source

open Text

/-! ### Braces in code -/

/-- The number of bytes `c` of a text outside of its literals, from a state of the scan on. -/
def codeCount (c : UInt8) : Quoting → Text → ℕ
  | _, [] => 0
  | q, b :: s => (if q = .code ∧ b = c then 1 else 0) + codeCount c (q.step b) s

/-- The byte at offset `i` stands inside of a block.  A brace before it opens the block in code, and
up to this byte, with the byte itself, no more blocks are closed than opened behind that brace.  The
braces around an outermost block are not inside of it, and a brace that closes nothing is inside of
nothing. -/
def InBlock (s : Text) (i : ℕ) : Prop :=
  ∃ x y, s.take (i + 1) = x ++ ascii '\x7b' :: y ∧ y ≠ [] ∧ Lexed x ∧
    ∀ z, z <+: y → codeCount (ascii '\x7d') .code z ≤ codeCount (ascii '\x7b') .code z

/-- What one byte does to the count: an opening brace in code adds one, and a closing brace in code
takes one away if there is one. -/
lemma Place.depth_step (p : Place) (b : UInt8) :
    (p.step .braces b).depth = p.depth + codeCount (ascii '\x7b') p.quoting [b] -
      codeCount (ascii '\x7d') p.quoting [b] := by
  obtain ⟨q, d⟩ := p
  cases q with
  | code =>
    by_cases ho : b = ascii '\x7b'
    · subst ho; rfl
    by_cases hc : b = ascii '\x7d'
    · subst hc; rfl
    simp [Place.step, Brackets.braces, codeCount, ho, hc]
  | inside q => simp [Place.step, codeCount]
  | escape q => simp [Place.step, codeCount]

lemma codeCount_cons (c : UInt8) (q : Quoting) (b : UInt8) (s : Text) :
    codeCount c q (b :: s) = codeCount c q [b] + codeCount c (q.step b) s := by
  simp [codeCount]

/-- The count is at least the number of blocks that have been opened and not closed. -/
lemma Place.le_depth_after (p : Place) (s : Text) :
    p.depth + codeCount (ascii '\x7b') p.quoting s ≤
      (p.after .braces s).depth + codeCount (ascii '\x7d') p.quoting s := by
  induction s generalizing p with
  | nil => simp [codeCount]
  | cons b s ih =>
    have hrest := ih (p.step .braces b)
    have hstep := p.depth_step b
    rw [codeCount_cons, codeCount_cons (ascii '\x7d')]
    change p.depth + (_ + codeCount _ (p.step .braces b).quoting s) ≤
      ((p.step .braces b).after .braces s).depth + (_ + codeCount _ (p.step .braces b).quoting s)
    omega

/-- While a block is open, the count is the number of blocks that are opened and not closed. -/
lemma Place.depth_after_of_pos {p : Place} {s : Text}
    (hopen : ∀ z, z <+: s → 0 < (p.after .braces z).depth) :
    (p.after .braces s).depth + codeCount (ascii '\x7d') p.quoting s =
      p.depth + codeCount (ascii '\x7b') p.quoting s := by
  induction s generalizing p with
  | nil => simp [codeCount]
  | cons b s ih =>
    have hrest := ih (p := p.step .braces b) fun z hz =>
      hopen (b :: z) (List.cons_prefix_cons.mpr ⟨rfl, hz⟩)
    have hfirst : 0 < p.depth := hopen [] List.nil_prefix
    have hstep := p.depth_step b
    have hsingle : codeCount (ascii '\x7d') p.quoting [b] ≤ 1 := by
      simp only [codeCount]
      split <;> omega
    rw [codeCount_cons, codeCount_cons (ascii '\x7b')]
    change ((p.step .braces b).after .braces s).depth +
      (_ + codeCount _ (p.step .braces b).quoting s) =
        p.depth + (_ + codeCount _ (p.step .braces b).quoting s)
    omega

/-- The count rises from zero at a brace in code only. -/
lemma Place.eq_of_depth_step_pos {p : Place} {b : UInt8} (hp : p.depth = 0)
    (hstep : 0 < (p.step .braces b).depth) :
    p.quoting = .code ∧ b = ascii '\x7b' ∧ p.step .braces b = ⟨.code, 1⟩ := by
  rw [p.depth_step, hp] at hstep
  have hopen : p.quoting = .code ∧ b = ascii '\x7b' := by
    by_contra hne
    simp [codeCount, hne] at hstep
  obtain ⟨q, d⟩ := p
  obtain ⟨rfl, rfl⟩ := hopen
  obtain rfl : d = 0 := hp
  exact ⟨rfl, rfl, rfl⟩

/-- The count falls to zero at a brace in code only. -/
lemma Place.eq_of_depth_step_eq_zero {p : Place} {b : UInt8} (hp : 0 < p.depth)
    (hstep : (p.step .braces b).depth = 0) : p = ⟨.code, 1⟩ ∧ b = ascii '\x7d' := by
  rw [p.depth_step] at hstep
  have hclose : p.quoting = .code ∧ b = ascii '\x7d' := by
    by_contra hne
    simp only [codeCount, hne, if_false] at hstep
    omega
  obtain ⟨q, d⟩ := p
  obtain ⟨rfl, rfl⟩ := hclose
  have hcounts : codeCount (ascii '\x7b') .code [ascii '\x7d'] = 0 ∧
      codeCount (ascii '\x7d') .code [ascii '\x7d'] = 1 := by decide
  simp only [hcounts] at hp hstep
  obtain rfl : d = 1 := by omega
  exact ⟨rfl, rfl⟩

/-! ### Open blocks -/

/-- Where the count is positive, there is a brace from which on it has been so. -/
lemma exists_open_of_depth_pos {s : Text} (h : 0 < (Place.after .braces {} s).depth) :
    ∃ x y, s = x ++ ascii '\x7b' :: y ∧ Place.after .braces {} x = {} ∧
      ∀ z, z <+: y → 0 < (Place.after .braces ⟨.code, 1⟩ z).depth := by
  induction s using List.reverseRecOn with
  | nil => simp at h
  | append_singleton s b ih =>
    have hlast : Place.after .braces {} (s ++ [b]) = (Place.after .braces {} s).step .braces b :=
      Place.after_append _ _ _
    rcases Nat.eq_zero_or_pos (Place.after .braces {} s).depth with hzero | hpos
    · -- The last byte opens the block.
      rw [hlast] at h
      obtain ⟨hcode, rfl, hstep⟩ := Place.eq_of_depth_step_pos hzero h
      refine ⟨s, [], rfl, ?_, fun z hz => ?_⟩
      · cases hp : Place.after .braces {} s
        simp_all
      · rw [List.prefix_nil.mp hz]
        exact Nat.one_pos
    · obtain ⟨x, y, rfl, hx, hy⟩ := ih hpos
      refine ⟨x, y ++ [b], by simp, hx, fun z hz => ?_⟩
      rcases List.prefix_concat_iff.mp hz with rfl | hz
      · rw [List.append_assoc, Place.after_append, hx] at h
        exact h
      · exact hy z hz

/-- The count is positive behind an opening brace in code as long as no more blocks are closed than
opened. -/
lemma depth_pos_of_open {x z : Text} (hx : Lexed x)
    (hclosed : codeCount (ascii '\x7d') .code z ≤ codeCount (ascii '\x7b') .code z) :
    0 < (Place.after .braces {} (x ++ ascii '\x7b' :: z)).depth := by
  have hcode : (Place.after .braces {} x).quoting = .code := by
    rw [Place.quoting_after]
    exact lexed_iff_foldl.mp hx
  have hbrace : codeCount (ascii '\x7b') .code [ascii '\x7b'] = 1 ∧
      codeCount (ascii '\x7d') .code [ascii '\x7b'] = 0 ∧
      Quoting.step .code (ascii '\x7b') = .code := by decide
  have hcount := Place.le_depth_after (Place.after .braces {} x) (ascii '\x7b' :: z)
  rw [hcode, codeCount_cons, codeCount_cons (ascii '\x7d'), hbrace.1, hbrace.2.1,
    hbrace.2.2] at hcount
  rw [Place.after_append]
  omega

/-- A byte stands inside of a block exactly if the count is positive before and behind it. -/
lemma inBlock_iff {s : Text} {i : ℕ} {b : UInt8} (hi : s[i]? = some b) :
    InBlock s i ↔ 0 < (Place.after .braces {} (s.take i)).depth ∧
      0 < ((Place.after .braces {} (s.take i)).step .braces b).depth := by
  have htake : s.take (i + 1) = s.take i ++ [b] := by rw [List.take_add_one, hi]; rfl
  have hafter : (Place.after .braces {} (s.take i)).step .braces b =
      Place.after .braces {} (s.take (i + 1)) := by rw [htake, Place.after_append]; rfl
  rw [hafter]
  constructor
  · rintro ⟨x, y, hxy, hy, hx, hclosed⟩
    refine ⟨?_, hxy ▸ depth_pos_of_open hx (hclosed y List.prefix_rfl)⟩
    obtain ⟨y, c, rfl⟩ := (List.eq_nil_or_concat' y).resolve_left hy
    rw [htake, ← List.cons_append, ← List.append_assoc] at hxy
    rw [(List.append_inj' hxy rfl).1]
    exact depth_pos_of_open hx (hclosed y (List.prefix_append _ _))
  · rintro ⟨hbefore, hbehind⟩
    obtain ⟨x, y, hxy, hx, hy⟩ := exists_open_of_depth_pos hbehind
    refine ⟨x, y, hxy, ?_, ?_, fun z hz => ?_⟩
    · rintro rfl
      rw [htake] at hxy
      rw [(List.append_inj' hxy rfl).1, hx] at hbefore
      exact absurd hbefore (by simp)
    · rw [lexed_iff_foldl, ← Place.quoting_after .braces {} x, hx]
    · have hcount := Place.depth_after_of_pos fun w hw => hy w (hw.trans hz)
      have hpos := hy z hz
      dsimp only at hcount
      omega

/-! ### What is shown -/

lemma length_blankFrom (p : Place) (s : Text) : (blankFrom p s).length = s.length := by
  induction s generalizing p with
  | nil => rfl
  | cons b s ih => simp [blankFrom, ih]

/-- Every byte is shown as its place asks. -/
lemma getElem?_blankFrom (p : Place) (s : Text) (i : ℕ) :
    (blankFrom p s)[i]? = s[i]?.map (blanked (p.after .braces (s.take i))) := by
  induction s generalizing p i with
  | nil => rfl
  | cons b s ih =>
    cases i with
    | zero => rfl
    | succ i => exact ih (p.step .braces b) i

/-- The place that a scan of the blanked text has where a scan of the text has the place `p`: in
code, and with one open block at most. -/
def Place.shown (p : Place) : Place := if p.depth = 0 then p else ⟨.code, 1⟩

/-- A blanked byte is not changed again, and leads to the place that belongs to it. -/
lemma blanked_shown (p : Place) (b : UInt8) :
    blanked p.shown (blanked p b) = blanked p b ∧
      p.shown.step .braces (blanked p b) = (p.step .braces b).shown := by
  rcases Nat.eq_zero_or_pos p.depth with hzero | hpos
  · rw [blanked_outside hzero, Place.shown, if_pos hzero, blanked_outside hzero]
    refine ⟨rfl, ?_⟩
    by_cases hstep : (p.step .braces b).depth = 0
    · rw [Place.shown, if_pos hstep]
    · rw [Place.shown, if_neg hstep]
      exact (Place.eq_of_depth_step_pos hzero (Nat.pos_of_ne_zero hstep)).2.2
  · rw [Place.shown, if_neg hpos.ne']
    by_cases hstep : (p.step .braces b).depth = 0
    · obtain ⟨rfl, rfl⟩ := Place.eq_of_depth_step_eq_zero hpos hstep
      decide
    · rw [Place.shown, if_neg hstep, blanked_inside hpos (Nat.pos_of_ne_zero hstep)]
      split
      · next hline => subst hline; decide
      · decide

lemma blankFrom_blankFrom (p : Place) (s : Text) :
    blankFrom p.shown (blankFrom p s) = blankFrom p s := by
  induction s generalizing p with
  | nil => rfl
  | cons b s ih =>
    obtain ⟨hbyte, hstep⟩ := blanked_shown p b
    rw [blankFrom, blankFrom, hbyte, hstep, ih]

/-- Blanking keeps every offset.  A byte that is a line feed or stands outside of all blocks is
unchanged, which includes literals, the braces of the outermost blocks and braces that close
nothing; every other byte inside of a block becomes a space.  Braces in literals do not count, and a
blanked text is not changed by blanking it again. -/
theorem blankNested_keeps_places (s : Text) :
    (blankNested s).length = s.length ∧
      (∀ i b, s[i]? = some b →
        (b = ascii '\n' ∨ ¬ InBlock s i → (blankNested s)[i]? = some b) ∧
        (b ≠ ascii '\n' ∧ InBlock s i → (blankNested s)[i]? = some (ascii ' '))) ∧
      blankNested (blankNested s) = blankNested s := by
  refine ⟨length_blankFrom {} s, fun i b hi => ?_, blankFrom_blankFrom {} s⟩
  rw [inBlock_iff hi, blankNested, getElem?_blankFrom, hi, Option.map_some, blanked]
  constructor
  · intro h
    rw [if_neg (by tauto)]
  · rintro ⟨hb, hbefore, hbehind⟩
    rw [if_pos ⟨hbefore, hbehind, hb⟩]

end DtoSchema.Source
