import DtoSchema.Proofs.Source.Nested

/-!
# Balanced blocks

`BlockText opening closing` is the grammar of what may stand between an opening and a closing byte:
other bytes, literals and further blocks.  The reader of blocks does not know this grammar, it counts
the blocks that it has entered.  What it has still to read from depth `d` on are `d + 1` texts of the
grammar with closing bytes between them (`Opened`), and the reader is kept at that invariant by every
byte (`reads_of_blockRest?`).  So it reads exactly the blocks (`readBalanced?_eq_some_iff`).
-/

namespace DtoSchema.Source

open Text

/-! ### The grammar -/

/-- The texts that may stand between two bytes that open and close a block. -/
inductive BlockText (opening closing : UInt8) : Text → Prop
  /-- Nothing. -/
  | nil : BlockText opening closing []
  /-- A byte that neither opens nor closes anything. -/
  | byte {b : UInt8} {s : Text} : isQuote b = false → b ≠ opening → b ≠ closing →
      BlockText opening closing s → BlockText opening closing (b :: s)
  /-- A literal; a backslash in it protects the byte behind it. -/
  | literal {q : UInt8} {t s : Text} : isQuote q → isLiteralContent q t →
      BlockText opening closing s → BlockText opening closing (q :: (t ++ q :: s))
  /-- A block. -/
  | block {t s : Text} : BlockText opening closing t → BlockText opening closing s →
      BlockText opening closing (opening :: (t ++ closing :: s))

variable {opening closing : UInt8} {s t content rest : Text} {d : ℕ}

namespace BlockText

lemma append (hs : BlockText opening closing s) (ht : BlockText opening closing t) :
    BlockText opening closing (s ++ t) := by
  induction hs with
  | nil => exact ht
  | byte hq ho hc _ ih => exact .byte hq ho hc ih
  | literal hq hl _ ih => simpa using BlockText.literal hq hl ih
  | block hi _ _ ih => simpa using BlockText.block hi ih

/-- The grammar is that of the texts whose brackets match, for a single pair of brackets. -/
lemma balanced (h : BlockText opening closing s) : Balanced (.single opening closing) s := by
  induction h with
  | nil => exact .nil
  | byte hq ho hc _ ih => exact .byte (by simp [Brackets.isPlain, Brackets.single, hq, ho, hc]) rfl ih
  | literal hq hl _ ih => simpa using Nested.literal hq (literal_of_isLiteralContent hq hl) ih
  | block _ _ iht ih => exact .group (by simp [Brackets.pairs, Brackets.single]) iht ih

end BlockText

/-! ### The reader -/

/-- What stands behind `d` blocks that are still open, up to the end of an enclosing one: texts of the
grammar, with the closing bytes of the open blocks between them. -/
def Opened (opening closing : UInt8) : ℕ → Text → Prop
  | 0, s => BlockText opening closing s
  | d + 1, s => ∃ t r, s = t ++ closing :: r ∧ BlockText opening closing t ∧
      Opened opening closing d r

lemma Opened.append (hs : BlockText opening closing s) (ht : Opened opening closing d t) :
    Opened opening closing d (s ++ t) := by
  cases d with
  | zero => exact BlockText.append hs ht
  | succ d =>
    obtain ⟨u, r, rfl, hu, hr⟩ := ht
    exact ⟨s ++ u, r, by simp, hs.append hu, hr⟩

/-- What a reader at depth `d` has still to read, also from inside a literal. -/
def Reads (opening closing : UInt8) (d : ℕ) : Quoting → Text → Prop
  | .code, s => Opened opening closing d s
  | .inside q, s => ∃ t r, s = t ++ q :: r ∧ isLiteralContent q t ∧ Opened opening closing d r
  | .escape q, s => ∃ b t r, s = b :: (t ++ q :: r) ∧ isLiteralContent q t ∧
      Opened opening closing d r

/-- A byte in a literal. -/
lemma reads_inside {q b : UInt8} (h : Reads opening closing d (Quoting.step (.inside q) b) s) :
    Reads opening closing d (.inside q) (b :: s) := by
  by_cases hslash : b = ascii '\\'
  · subst hslash
    obtain ⟨c, t, r, rfl, ht, hr⟩ : Reads opening closing d (.escape q) s := by
      simpa [Quoting.step] using h
    exact ⟨ascii '\\' :: c :: t, r, rfl, by simpa [isLiteralContent] using ht, hr⟩
  by_cases hquote : b = q
  · subst hquote
    have hcode : Reads opening closing d .code s := by simpa [Quoting.step, hslash] using h
    exact ⟨[], s, rfl, rfl, hcode⟩
  · obtain ⟨t, r, rfl, ht, hr⟩ : Reads opening closing d (.inside q) s := by
      simpa [Quoting.step, hslash, hquote] using h
    refine ⟨b :: t, r, rfl, ?_, hr⟩
    cases t <;> simp_all [isLiteralContent]

/-- What is read of an open block is made of texts of the grammar and the closing bytes of the blocks
that are open in it. -/
lemma reads_of_blockRest? {q : Quoting}
    (h : blockRest? opening closing q d s = some (content, rest)) :
    Reads opening closing d q content := by
  induction s generalizing q d content with
  | nil => simp [blockRest?] at h
  | cons b s ih =>
    have hnext : ∀ {q : Quoting} {d : ℕ},
        (blockRest? opening closing q d s).map (consFirst b) = some (content, rest) →
          ∃ content', content = b :: content' ∧ Reads opening closing d q content' := by
      intro q d hmap
      obtain ⟨⟨content', rest'⟩, hread, heq⟩ := Option.map_eq_some_iff.mp hmap
      obtain ⟨rfl, rfl⟩ := Prod.mk.inj heq
      exact ⟨content', rfl, ih hread⟩
    cases q with
    | inside q =>
      obtain ⟨content', rfl, hreads⟩ := hnext (q := Quoting.step (.inside q) b) h
      exact reads_inside hreads
    | escape q =>
      obtain ⟨content', rfl, t, r, rfl, ht, hr⟩ := hnext (q := .inside q) h
      exact ⟨b, t, r, rfl, ht, hr⟩
    | code =>
      rw [blockRest?_code] at h
      split_ifs at h with hquote hopening hclosing
      · obtain ⟨content', rfl, t, r, rfl, ht, hr⟩ := hnext h
        have hliteral := Opened.append (BlockText.literal hquote ht .nil) hr
        rwa [List.cons_append, List.append_assoc] at hliteral
      · obtain ⟨content', rfl, t, r, rfl, ht, hr⟩ := hnext h
        subst hopening
        have hblock := Opened.append (BlockText.block ht .nil) hr
        rwa [List.cons_append, List.append_assoc] at hblock
      · cases d with
        | zero =>
          obtain ⟨rfl, -⟩ := Prod.mk.inj (Option.some.inj h)
          exact BlockText.nil
        | succ d =>
          obtain ⟨content', rfl, hreads⟩ := hnext h
          exact ⟨[], content', by rw [hclosing, List.nil_append], .nil, hreads⟩
      · obtain ⟨content', rfl, hreads⟩ := hnext h
        exact Opened.append (.byte (by simpa using hquote) hopening hclosing .nil) hreads

/-- A block is read exactly if it is one. -/
lemma readBalanced?_eq_some_iff (hproper : (Brackets.single opening closing).isProper) :
    readBalanced? opening closing s = some (content, rest) ↔
      s = opening :: (content ++ closing :: rest) ∧ BlockText opening closing content := by
  constructor
  · intro h
    refine ⟨eq_of_readBalanced? h, ?_⟩
    cases s with
    | nil => simp [readBalanced?] at h
    | cons b s =>
      rw [readBalanced?] at h
      split_ifs at h
      exact reads_of_blockRest? h
  · rintro ⟨rfl, hcontent⟩
    exact readBalanced?_nested hproper hcontent.balanced rest

/-! ### Blocks in a text -/

/-- At the offset `start` of a text stands the opening byte, behind it `content`, a text of the
grammar, and behind that the closing byte. -/
def BlockAt (opening closing : UInt8) (s : Text) (start : ℤ) (content : Text) : Prop :=
  ∃ i : ℕ, start = i ∧ s[i]? = some opening ∧ BlockText opening closing content ∧
    content ++ [closing] <+: s.drop (i + 1)

lemma BlockAt.append {start : ℤ} (h : BlockAt opening closing s start content) (more : Text) :
    BlockAt opening closing (s ++ more) start content := by
  obtain ⟨i, rfl, hopen, hcontent, hstart⟩ := h
  have hlt : i < s.length := (List.getElem?_eq_some_iff.mp hopen).1
  refine ⟨i, rfl, by rw [List.getElem?_append_left hlt, hopen], hcontent, ?_⟩
  rw [List.drop_append_of_le_length hlt]
  exact hstart.trans (List.prefix_append _ _)

lemma drop_eq_block_iff {i : ℕ} :
    (∃ rest, s.drop i = opening :: (content ++ closing :: rest)) ↔
      s[i]? = some opening ∧ content ++ [closing] <+: s.drop (i + 1) := by
  have hdrop : s.drop (i + 1) = (s.drop i).tail := List.tail_drop.symm
  have hhead : s[i]? = (s.drop i).head? := List.head?_drop.symm
  rw [hdrop, hhead]
  constructor
  · rintro ⟨rest, hrest⟩
    rw [hrest]
    exact ⟨rfl, rest, by simp⟩
  · rintro ⟨hopen, rest, hrest⟩
    obtain ⟨u, hu⟩ := List.head?_eq_some_iff.mp hopen
    refine ⟨rest, ?_⟩
    rw [hu, List.tail_cons] at hrest
    rw [hu, ← hrest, List.append_assoc, List.singleton_append]

/-- A block is read at an offset exactly if there is one, up to its closing byte. -/
lemma readBalancedAt?_eq_some_iff (hproper : (Brackets.single opening closing).isProper)
    {start : ℤ} {stop : ℕ} :
    readBalancedAt? opening closing s start = some (content, stop) ↔
      BlockAt opening closing s start content ∧ (stop : ℤ) = start + 1 + content.length := by
  constructor
  · intro h
    cases start with
    | negSucc i => simp [readBalancedAt?] at h
    | ofNat i =>
      obtain ⟨⟨content', rest⟩, hread, heq⟩ := Option.map_eq_some_iff.mp h
      obtain ⟨rfl, rfl⟩ := Prod.mk.inj heq
      obtain ⟨hdrop, hcontent⟩ := (readBalanced?_eq_some_iff hproper).mp hread
      obtain ⟨hopen, hstart⟩ := drop_eq_block_iff.mp ⟨rest, hdrop⟩
      refine ⟨⟨i, rfl, hopen, hcontent, hstart⟩, ?_⟩
      simp only [Int.ofNat_eq_natCast]
      omega
  · rintro ⟨⟨i, rfl, hopen, hcontent, hstart⟩, hstop⟩
    obtain ⟨rest, hdrop⟩ := drop_eq_block_iff.mpr ⟨hopen, hstart⟩
    have hread := (readBalanced?_eq_some_iff hproper).mpr ⟨hdrop, hcontent⟩
    obtain rfl : stop = i + content.length + 1 := by omega
    exact Option.map_eq_some_iff.mpr ⟨(content, rest), hread, rfl⟩

/-- The byte at which a block ends closes it. -/
lemma BlockAt.getElem?_stop {start : ℤ} (h : BlockAt opening closing s start content) {stop : ℕ}
    (hstop : (stop : ℤ) = start + 1 + content.length) : s[stop]? = some closing := by
  obtain ⟨i, rfl, -, -, rest, hrest⟩ := h
  obtain rfl : stop = i + 1 + content.length := by omega
  rw [← List.getElem?_drop, ← hrest]
  simp

/-- Reading a block.  For two different bytes that are no quotes, a block is read at an offset exactly
if the opening byte stands there and a text of the grammar, followed by the closing byte, stands
behind it.  What is read is that text with the offset of its closing byte, and text behind the block
does not matter.  There is one such text at most. -/
theorem readBalancedAt?_blockText {opening closing : UInt8} (hne : opening ≠ closing)
    (hopening : isQuote opening = false) (hclosing : isQuote closing = false) (s : Text)
    (start : ℤ) :
    ((readBalancedAt? opening closing s start).isSome ↔
        ∃ content, BlockAt opening closing s start content) ∧
      (∀ content stop, readBalancedAt? opening closing s start = some (content, stop) →
        BlockAt opening closing s start content ∧ (stop : ℤ) = start + 1 + content.length ∧
          s[stop]? = some closing ∧
          ∀ more, readBalancedAt? opening closing (s ++ more) start = some (content, stop)) ∧
      ∀ content content', BlockAt opening closing s start content →
        BlockAt opening closing s start content' → content = content' := by
  have hproper : (Brackets.single opening closing).isProper := by
    simp [Brackets.isProper, Brackets.pairs, Brackets.single, hopening, hclosing, hne.symm]
  have hread : ∀ {content : Text}, BlockAt opening closing s start content →
      ∃ stop, readBalancedAt? opening closing s start = some (content, stop) := by
    rintro content hblock
    obtain ⟨i, rfl, -⟩ := id hblock
    exact ⟨i + 1 + content.length, (readBalancedAt?_eq_some_iff hproper).mpr ⟨hblock, by simp⟩⟩
  refine ⟨⟨?_, ?_⟩, ?_, ?_⟩
  · intro hsome
    obtain ⟨⟨content, stop⟩, h⟩ := Option.isSome_iff_exists.mp hsome
    exact ⟨content, ((readBalancedAt?_eq_some_iff hproper).mp h).1⟩
  · rintro ⟨content, hblock⟩
    obtain ⟨stop, h⟩ := hread hblock
    simp [h]
  · intro content stop h
    obtain ⟨hblock, hstop⟩ := (readBalancedAt?_eq_some_iff hproper).mp h
    refine ⟨hblock, hstop, hblock.getElem?_stop hstop, ?_⟩
    intro more
    exact (readBalancedAt?_eq_some_iff hproper).mpr ⟨hblock.append more, hstop⟩
  · intro content content' hblock hblock'
    obtain ⟨stop, h⟩ := hread hblock
    obtain ⟨stop', h'⟩ := hread hblock'
    rw [h] at h'
    exact (Prod.mk.inj (Option.some.inj h')).1

/-- A block with another one and a quoted brace inside, in front of any text. -/
theorem readBalancedAt?_blockText_nested :
    readBalancedAt? (ascii '\x7b') (ascii '\x7d') "class A \x7b f \x7b \"\x7d\" \x7d \x7d" 8 =
        some (utf8 " f \x7b \"\x7d\" \x7d ", 20) ∧
      ∀ more, readBalancedAt? (ascii '\x7b') (ascii '\x7d')
        (utf8 "class A \x7b f \x7b \"\x7d\" \x7d \x7d" ++ more) 8 =
          some (utf8 " f \x7b \"\x7d\" \x7d ", 20) := by
  have hread : readBalancedAt? (ascii '\x7b') (ascii '\x7d')
      "class A \x7b f \x7b \"\x7d\" \x7d \x7d" 8 = some (utf8 " f \x7b \"\x7d\" \x7d ", 20) := by
    decide
  have hne : ascii '\x7b' ≠ ascii '\x7d' := by decide
  have hblock := readBalancedAt?_blockText hne (by decide) (by decide)
    "class A \x7b f \x7b \"\x7d\" \x7d \x7d" 8
  exact ⟨hread, (hblock.2.1 _ _ hread).2.2.2⟩

end DtoSchema.Source
