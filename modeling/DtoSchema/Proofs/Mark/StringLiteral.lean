import DtoSchema.Proofs.Declaration.Tails
import DtoSchema.Proofs.Mark.Merge

/-!
# String literals as arguments of annotations

The value of an argument is taken for a string if its first and its last byte are double quotes.
What this accepts is compared here with the literals of the source languages.

The arguments of an annotation are cut out of a text whose literals are closed, and none of the cuts
falls into a literal, so the literals of every value are closed as well (`lexed_of_mem_arguments`).
Such a value is therefore one literal, or it starts with one and ends with another one, as in a
concatenation; in the second case the quotes between the two are taken for a part of the string
(`stringLiteral?_argument`).
-/

namespace DtoSchema.Source

open Text

variable {brackets : Brackets} {sep : UInt8 → Bool} {s : Text}

/-! ### Closed literals -/

/-- The literals of the text are closed; brackets are not regarded. -/
abbrev Lexed : Text → Prop := Balanced ⟨[], []⟩

lemma isPlain_of_isQuote {b : UInt8} (hb : isQuote b = false) :
    Brackets.isPlain ⟨[], []⟩ b := by
  simp [Brackets.isPlain, hb]

lemma Place.quoting_after (brackets : Brackets) (p : Place) (s : Text) :
    (p.after brackets s).quoting = s.foldl Quoting.step p.quoting := by
  induction s generalizing p with
  | nil => rfl
  | cons b s ih => exact ih (p.step brackets b)

/-- A scan that leads back to code has read closed literals, behind what was left of the literal in
which it started. -/
lemma lexed_of_foldl {q : Quoting} (h : s.foldl Quoting.step q = .code) :
    (q = .code → Lexed s) ∧ (q ≠ .code → ∃ l r, s = l ++ r ∧ Literal q l ∧ Lexed r) := by
  induction s generalizing q with
  | nil => exact ⟨fun _ => .nil, fun hq => absurd h hq⟩
  | cons b s ih =>
    obtain ⟨hcode, hliteral⟩ := ih h
    refine ⟨?_, fun hq => ?_⟩
    · rintro rfl
      by_cases hb : isQuote b
      · have hstep : Quoting.step .code b = .inside b := by simp [Quoting.step, hb]
        obtain ⟨l, r, rfl, hl, hr⟩ := hliteral (by simp [hstep])
        exact .literal hb (hstep ▸ hl) hr
      · rw [Bool.not_eq_true] at hb
        exact .byte (isPlain_of_isQuote hb) rfl (hcode (by simp [Quoting.step, hb]))
    · by_cases hb : q.step b = .code
      · exact ⟨[b], s, rfl, .close hq hb, hcode hb⟩
      · obtain ⟨l, r, rfl, hl, hr⟩ := hliteral hb
        exact ⟨b :: l, r, rfl, .more hq hb hl, hr⟩

lemma lexed_iff_foldl : Lexed s ↔ s.foldl Quoting.step .code = .code := by
  refine ⟨fun h => ?_, fun h => (lexed_of_foldl h).1 rfl⟩
  have hafter := Place.after_nested (d := 0) (by decide) h
  rw [← Place.quoting_after ⟨[], []⟩ ⟨.code, 0⟩ s, hafter]

/-- White space holds neither quotes nor brackets. -/
lemma all_isPlain_of_isSpace {w : Text} (hw : IsSpace w) : w.all Brackets.all.isPlain :=
  List.all_eq_true.mpr fun _ hb => Declaration.isPlain_of_isMarkByte (by decide)
    (Declaration.isMarkByte_of_isInk (hw.isInk_of_mem hb))

lemma lexed_trim (h : Lexed s) : Lexed (trim s) := by
  have hplain : ∀ {w : Text}, IsSpace w → w.all (Brackets.isPlain ⟨[], []⟩) := fun hw =>
    all_mono (fun _ hb => isPlain_of_isQuote (isQuote_of_isPlain hb)) (all_isPlain_of_isSpace hw)
  obtain ⟨w, hw, hspace⟩ := exists_space_append s
  rw [hw] at h
  obtain ⟨w', hw', hspace'⟩ := exists_append_space (trimStart s)
  have hstart := h.of_plain_append (hplain hspace)
  rw [hw'] at hstart
  exact hstart.of_append (hplain hspace')

/-- The parts of a text with closed literals have closed literals. -/
lemma lexed_of_mem_segments {sep' : UInt8 → Bool} (h : Nested ⟨[], []⟩ sep' s) {d : ℕ} :
    ∀ part ∈ segments brackets sep ⟨.code, d⟩ s, Lexed part := by
  have hglue : ∀ {a : Text} {p : Place} {s : Text}, Lexed a →
      (∀ part ∈ segments brackets sep p s, Lexed part) →
      ∀ part ∈ glue a (segments brackets sep p s), Lexed part := by
    intro a p s ha hs part hpart
    obtain ⟨first, rest, hseg⟩ := exists_segments_cons brackets sep p s
    rw [hseg, List.forall_mem_cons] at hs
    rw [hseg, glue_cons, List.mem_cons] at hpart
    rcases hpart with rfl | hpart
    · exact ha.append hs.1
    · exact hs.2 part hpart
  induction h generalizing d with
  | nil =>
    intro part hpart
    rw [segments, List.mem_singleton] at hpart
    exact hpart ▸ .nil
  | @byte _ b s hb _ _ ih =>
    by_cases hcut : Place.cutsAt brackets sep ⟨.code, d⟩ b
    · rw [segments_cut hcut]
      exact List.forall_mem_cons.mpr ⟨.nil, ih⟩
    · have hstep : Place.step brackets ⟨.code, d⟩ b =
          ⟨.code, (Place.step brackets ⟨.code, d⟩ b).depth⟩ := by
        have hquote : isQuote b = false := isQuote_of_isPlain hb
        simp [Place.step, Quoting.step, hquote]
      rw [segments_cons (Bool.not_eq_true _ ▸ hcut), hstep]
      exact hglue (.byte hb rfl .nil) ih
  | @literal _ q l s hq hl _ ih =>
    rw [segments_cons (Place.cutsAt_eq_false (Brackets.isPlain_quote hq)), Place.step_quote hq,
      segments_literal hl, ← glue_append]
    have hliteral : Lexed (q :: (l ++ [])) := .literal hq hl .nil
    rw [List.append_nil] at hliteral
    exact hglue hliteral ih
  | group hp => simp [Brackets.pairs] at hp

/-- The content of a block has closed literals: its closing byte stands outside of them. -/
lemma foldl_of_blockRest? {opening closing : UInt8} {q : Quoting} {d : ℕ} {content rest : Text}
    (h : blockRest? opening closing q d s = some (content, rest)) :
    content.foldl Quoting.step q = .code := by
  induction s generalizing q d content with
  | nil => simp [blockRest?] at h
  | cons b s ih =>
    have hstep : ∀ {q q' : Quoting} {d : ℕ}, q.step b = q' →
        (blockRest? opening closing q' d s).map (consFirst b) = some (content, rest) →
          content.foldl Quoting.step q = .code := by
      rintro q q' d rfl hmap
      obtain ⟨⟨content', rest'⟩, hrest, heq⟩ := Option.map_eq_some_iff.mp hmap
      obtain ⟨rfl, rfl⟩ := Prod.mk.inj heq
      exact ih (q := q.step b) hrest
    cases q with
    | code =>
      rw [blockRest?_code] at h
      split at h
      · next hb => exact hstep (by simp [Quoting.step, hb]) h
      · next hb =>
        have hcode : Quoting.step .code b = .code := by simp [Quoting.step, hb]
        split at h
        · exact hstep hcode h
        · split at h
          · cases d with
            | zero =>
              obtain ⟨rfl, rfl⟩ := Prod.mk.inj (Option.some.inj h)
              rfl
            | succ d => exact hstep hcode h
          · exact hstep hcode h
    | inside q => exact hstep rfl h
    | escape q => exact hstep rfl h

/-- A byte that is found at the top level stands outside of literals. -/
lemma exists_of_topLevelFrom {target : UInt8} {p : Place} {i : ℕ}
    (h : topLevelFrom target p s = some i) :
    ∃ u v, s = u ++ target :: v ∧ u.length = i ∧
      (p.after .grouping u).cutsAt .grouping (· == target) target := by
  induction s generalizing p i with
  | nil => simp [topLevelFrom] at h
  | cons b s ih =>
    rw [topLevelFrom] at h
    split at h
    · next hcut =>
      obtain rfl : b = target := by
        simp only [Place.cutsAt, Bool.and_eq_true, beq_iff_eq] at hcut
        exact hcut.2
      exact ⟨[], s, rfl, Option.some.inj h, hcut⟩
    · obtain ⟨j, hj, rfl⟩ := Option.map_eq_some_iff.mp h
      obtain ⟨u, v, rfl, rfl, hcut⟩ := ih hj
      exact ⟨b :: u, v, rfl, rfl, hcut⟩

/-! ### Literals and concatenations -/

/-- The text between two double quotes. -/
def inQuotes (t : Text) : Text := ascii '"' :: (t ++ [ascii '"'])

/-- The text is one double-quoted literal with the content `t`. -/
def IsString (s t : Text) : Prop := s = inQuotes t ∧ isLiteralContent (ascii '"') t

/-- The text starts with a double-quoted literal and ends with another one; `t` is what stands
between the outermost quotes. -/
def IsConcatenation (s t : Text) : Prop :=
  ∃ first between last, isLiteralContent (ascii '"') first ∧ Lexed between ∧
    isLiteralContent (ascii '"') last ∧ s = inQuotes first ++ (between ++ inQuotes last) ∧
    t = first ++ ascii '"' :: (between ++ ascii '"' :: last)

lemma inQuotes_injective : Function.Injective inQuotes := by
  intro s t h
  exact List.append_cancel_right (List.cons.inj h).2

lemma IsConcatenation.eq_inQuotes {t : Text} (h : IsConcatenation s t) : s = inQuotes t := by
  obtain ⟨first, between, last, -, -, -, rfl, rfl⟩ := h
  simp [inQuotes]

lemma isLiteralContent_cons {q b : UInt8} (hb : b ≠ ascii '\\') (s : Text) :
    isLiteralContent q (b :: s) = (b != q && isLiteralContent q s) := by
  conv_lhs => unfold isLiteralContent
  rw [if_neg hb]

/-- What is left of a literal is its content and the closing quote, behind the byte that a backslash
protects. -/
lemma Literal.exists_content {q : UInt8} {l : Text} (h : Literal (.inside q) l) :
    ∃ c, l = c ++ [q] ∧ isLiteralContent q c := by
  have hstate : ∀ {p : Quoting} {l : Text}, Literal p l →
      (p = .inside q → ∃ c, l = c ++ [q] ∧ isLiteralContent q c) ∧
      (p = .escape q → ∃ b c, l = b :: (c ++ [q]) ∧ isLiteralContent q c) := by
    intro p l h
    induction h with
    | @close p b _ hb =>
      refine ⟨?_, ?_⟩ <;> rintro rfl
      · by_cases hslash : b = ascii '\\'
        · simp [Quoting.step, hslash] at hb
        · have hbq : b = q := by
            by_contra hne
            simp [Quoting.step, hslash, hne] at hb
          exact ⟨[], by simp [hbq], rfl⟩
      · simp [Quoting.step] at hb
    | @more p b l _ hb _ ih =>
      refine ⟨?_, ?_⟩ <;> rintro rfl
      · by_cases hslash : b = ascii '\\'
        · obtain ⟨d, c, rfl, hc⟩ := ih.2 (by simp [Quoting.step, hslash])
          exact ⟨b :: d :: c, rfl, by simpa [isLiteralContent, hslash] using hc⟩
        · have hbq : b ≠ q := by
            rintro rfl
            exact hb (by simp [Quoting.step, hslash])
          obtain ⟨c, rfl, hc⟩ := ih.1 (by simp [Quoting.step, hslash, hbq])
          exact ⟨b :: c, rfl, by simpa [isLiteralContent_cons hslash, hbq] using hc⟩
      · obtain ⟨c, rfl, hc⟩ := ih.1 (by simp [Quoting.step])
        exact ⟨b, c, rfl, hc⟩
  exact (hstate h).1 rfl

/-- A content ends at the first quote that is not escaped. -/
lemma not_isLiteralContent_append {q : UInt8} (hq : q ≠ ascii '\\') {c : Text}
    (hc : isLiteralContent q c) (s : Text) : isLiteralContent q (c ++ q :: s) = false := by
  fun_induction isLiteralContent q c with
  | case1 => simp [isLiteralContent_cons hq]
  | case2 => simp at hc
  | case3 d c ih => simpa [isLiteralContent] using ih hc
  | case4 b c hb ih =>
    simp only [Bool.and_eq_true] at hc
    simp [isLiteralContent_cons hb, ih hc.2]

lemma IsConcatenation.not_isLiteralContent {t : Text} (h : IsConcatenation s t) :
    ¬ isLiteralContent (ascii '"') t := by
  obtain ⟨first, between, last, hfirst, -, -, -, rfl⟩ := h
  rw [not_isLiteralContent_append (by decide) hfirst]
  simp

/-- A text with closed literals that ends with a double quote ends with a string. -/
lemma exists_string_of_getLast? {sep' : UInt8 → Bool} (h : Nested ⟨[], []⟩ sep' s)
    (hlast : s.getLast? = some (ascii '"')) :
    ∃ between last, Lexed between ∧ isLiteralContent (ascii '"') last ∧
      s = between ++ inQuotes last := by
  induction h with
  | nil => simp at hlast
  | @byte _ b s hb _ _ ih =>
    have hne : s ≠ [] := by
      rintro rfl
      obtain rfl : b = ascii '"' := by simpa using hlast
      exact absurd hb (by decide)
    rw [List.getLast?_cons_of_ne_nil hne] at hlast
    obtain ⟨between, last, hbetween, hcontent, rfl⟩ := ih hlast
    exact ⟨b :: between, last, .byte hb rfl hbetween, hcontent, rfl⟩
  | @literal _ q l s hq hl _ ih =>
    obtain ⟨c, rfl, hc⟩ := hl.exists_content
    by_cases hs : s = []
    · subst hs
      obtain rfl : q = ascii '"' := by simpa [List.getLast?_cons] using hlast
      exact ⟨[], c, .nil, hc, by simp [inQuotes]⟩
    · have hend : s.getLast? = some (ascii '"') := by
        rwa [List.getLast?_cons_of_ne_nil (by simp), List.getLast?_append_of_ne_nil _ hs]
          at hlast
      obtain ⟨between, last, hbetween, hcontent, rfl⟩ := ih hend
      exact ⟨q :: (c ++ [q] ++ between), last, .literal hq hl hbetween, hcontent, by simp⟩
  | group hp => simp [Brackets.pairs] at hp

/-- A text with closed literals that stands between two double quotes is one string, or it starts
with one and ends with another one. -/
lemma isString_or_isConcatenation {t : Text} (h : Lexed s) (hs : s = inQuotes t) :
    IsString s t ∨ IsConcatenation s t := by
  cases h with
  | nil => simp [inQuotes] at hs
  | byte hb =>
    obtain ⟨rfl, -⟩ := List.cons.inj hs
    exact absurd hb (by decide)
  | @literal _ q l r hq hl hr =>
    obtain ⟨rfl, htail⟩ := List.cons.inj hs
    obtain ⟨c, rfl, hc⟩ := hl.exists_content
    by_cases hnil : r = []
    · subst hnil
      obtain rfl : c = t := by simpa using htail
      exact Or.inl ⟨by simp [inQuotes], hc⟩
    · have hend : r.getLast? = some (ascii '"') := by
        rw [← List.getLast?_append_of_ne_nil _ hnil, htail, List.getLast?_concat]
      obtain ⟨between, last, hbetween, hlast, rfl⟩ := exists_string_of_getLast? hr hend
      refine Or.inr ⟨c, between, last, hc, hbetween, hlast, by simp [inQuotes], ?_⟩
      have hcut : c ++ ascii '"' :: (between ++ ascii '"' :: last) ++ [ascii '"'] =
          t ++ [ascii '"'] := by
        rw [← htail]
        simp [inQuotes]
      exact (List.append_cancel_right hcut).symm
  | group hp => simp [Brackets.pairs] at hp

end DtoSchema.Source

namespace DtoSchema.Mark

open Text Source

/-! ### The values of arguments -/

lemma exists_read?_of_mem_readAll {s : Text} {a : Mark} (ha : a ∈ readAll s) :
    ∃ t, read? t = some a := by
  have hfrom : ∀ (s : Text) (k : ℕ), a ∈ readAllFrom k s → ∃ t, read? t = some a := by
    intro s
    induction s with
    | nil => simp [readAllFrom]
    | cons b s ih =>
      intro k hk
      cases k with
      | succ k => exact ih k hk
      | zero =>
        rw [readAllFrom] at hk
        cases hread : read? (b :: s) with
        | none =>
          rw [hread] at hk
          exact ih 0 hk
        | some a' =>
          rw [hread, List.mem_cons] at hk
          rcases hk with rfl | hk
          · exact ⟨b :: s, hread⟩
          · exact ih _ hk
  exact hfrom s 0 ha

/-- The text between the parentheses of an annotation is a block that was read. -/
lemma exists_readBalanced?_of_read? {s body : Text} {a : Mark} (h : read? s = some a)
    (hbody : a.body = some body) :
    ∃ t rest, readBalanced? (ascii '(') (ascii ')') t = some (body, rest) := by
  cases s with
  | nil => simp [read?] at h
  | cons b s =>
    simp only [read?] at h
    split at h
    · simp at h
    · split at h
      · simp at h
      · split at h
        · next content rest hread =>
          obtain rfl := Option.some.inj h
          obtain rfl := Option.some.inj hbody
          exact ⟨_, rest, hread⟩
        · obtain rfl := Option.some.inj h
          simp at hbody

lemma lexed_body {s body : Text} {a : Mark} (ha : a ∈ readAll s) (hbody : a.body = some body) :
    Lexed body := by
  obtain ⟨t, hread⟩ := exists_read?_of_mem_readAll ha
  obtain ⟨u, rest, hblock⟩ := exists_readBalanced?_of_read? hread hbody
  cases u with
  | nil => simp [readBalanced?] at hblock
  | cons b u =>
    rw [readBalanced?] at hblock
    split at hblock
    · exact lexed_iff_foldl.mpr (foldl_of_blockRest? hblock)
    · simp at hblock

lemma trim_trim (s : Text) : trim (trim s) = trim s := by
  have hstart : trimStart (trim s) = trim s := dropLeading_stay (leadingWidth_trim s)
  rw [trim, hstart, trim, trimEnd_trimEnd]

/-- A part of the body is a positional argument, or it is cut at its first top level equals sign. -/
lemma Argument.ofPart_cases (part : Text) : Argument.ofPart part = ⟨none, part⟩ ∨
    ∃ u v, part = u ++ ascii '=' :: v ∧
      (Place.after .grouping {} u).cutsAt .grouping (· == ascii '=') (ascii '=') ∧
      isIdent (trim u) ∧ Argument.ofPart part = ⟨some (trim u), trim v⟩ := by
  unfold Argument.ofPart
  cases hindex : topLevelIndex? (ascii '=') part with
  | none => exact Or.inl rfl
  | some i =>
    obtain ⟨u, v, rfl, rfl, hcut⟩ := exists_of_topLevelFrom hindex
    have hdrop : (u ++ ascii '=' :: v).drop (u.length + 1) = v := by
      rw [List.append_cons, List.drop_left' (by simp)]
    simp only [List.take_left', hdrop]
    by_cases hident : isIdent (trim u)
    · exact Or.inr ⟨u, v, rfl, hcut, hident, if_pos hident⟩
    · exact Or.inl (if_neg hident)

/-- A part of the body that is an argument keeps its literals closed. -/
lemma Argument.lexed_ofPart {part : Text} (h : Lexed part) : Lexed (Argument.ofPart part).value := by
  rcases Argument.ofPart_cases part with heq | ⟨u, v, rfl, hcut, -, heq⟩
  · rwa [heq]
  · -- the scan is outside of literals in front of the sign, and the sign is no quote
    have hcode : u.foldl Quoting.step .code = .code := by
      simp only [Place.cutsAt, Place.isTop, Bool.and_eq_true, beq_iff_eq] at hcut
      rw [← Place.quoting_after .grouping {} u]
      exact hcut.1.1.1
    have hsign : Quoting.step .code (ascii '=') = .code := by decide
    rw [lexed_iff_foldl, List.foldl_append, hcode, List.foldl_cons, hsign] at h
    rw [heq]
    exact lexed_trim (lexed_iff_foldl.mpr h)

lemma Argument.trim_ofPart {part : Text} (h : trim part = part) :
    trim (Argument.ofPart part).value = (Argument.ofPart part).value := by
  rcases Argument.ofPart_cases part with heq | ⟨u, v, -, -, -, heq⟩
  · rwa [heq]
  · rw [heq]
    exact trim_trim v

/-- An argument is cut out of the body. -/
lemma exists_of_mem_arguments {a : Mark} {arg : Argument} (h : arg ∈ a.arguments) :
    ∃ body part, a.body = some body ∧ part ∈ segments .all (· == ascii ',') {} body ∧
      arg = Argument.ofPart (trim part) := by
  unfold arguments at h
  cases hbody : a.body with
  | none => simp [hbody] at h
  | some body =>
    simp only [hbody, List.mem_map, List.mem_filter] at h
    obtain ⟨_, ⟨⟨part, hpart, rfl⟩, -⟩, rfl⟩ := h
    refine ⟨body, part, rfl, ?_, rfl⟩
    unfold splitTopLevel dropEmptyEnd at hpart
    split at hpart
    · exact List.mem_of_mem_dropLast hpart
    · exact hpart

/-- The literals of the value of an argument are closed. -/
lemma lexed_of_mem_arguments {s : Text} {a : Mark} (ha : a ∈ readAll s) {arg : Argument}
    (harg : arg ∈ a.arguments) : Lexed arg.value := by
  obtain ⟨body, part, hbody, hpart, rfl⟩ := exists_of_mem_arguments harg
  exact Argument.lexed_ofPart
    (lexed_trim (lexed_of_mem_segments (lexed_body ha hbody) part hpart))

lemma trim_of_mem_arguments {a : Mark} {arg : Argument} (harg : arg ∈ a.arguments) :
    trim arg.value = arg.value := by
  obtain ⟨body, part, -, -, rfl⟩ := exists_of_mem_arguments harg
  exact Argument.trim_ofPart (trim_trim part)

end DtoSchema.Mark

namespace DtoSchema.Constraints

open Text Source

/-! ### What is taken for a string -/

lemma stringLiteral?_eq_some_iff {v t : Text} : stringLiteral? v = some t ↔ trim v = inQuotes t := by
  unfold stringLiteral?
  cases trim v with
  | nil => simp [inQuotes]
  | cons q s =>
    by_cases h : q = ascii '"' ∧ s.getLast? = some (ascii '"')
    · obtain ⟨rfl, hlast⟩ := h
      obtain ⟨c, rfl⟩ := List.getLast?_eq_some_iff.mp hlast
      simp [inQuotes]
    · simp only [if_neg h, inQuotes, List.cons.injEq, reduceCtorEq, false_iff]
      rintro ⟨rfl, rfl⟩
      exact h (by simp)

/-- The value of an argument is taken for a string if it is one, or if it starts with one and ends
with another one. -/
lemma stringLiteral?_argument {s : Text} {a : Mark} (ha : a ∈ Mark.readAll s) {arg : Mark.Argument}
    (harg : arg ∈ a.arguments) {t : Text} :
    stringLiteral? arg.value = some t ↔ IsString arg.value t ∨ IsConcatenation arg.value t := by
  rw [stringLiteral?_eq_some_iff, Mark.trim_of_mem_arguments harg]
  refine ⟨isString_or_isConcatenation (Mark.lexed_of_mem_arguments ha harg), ?_⟩
  rintro (h | h)
  · exact h.1
  · exact h.eq_inQuotes

/-! ### The strings of constraints -/

/-- The text is taken from an annotation of the given name, and there from the value that `value`
finds. -/
def IsTaken (marks : List Mark) (name : Text) (value : Mark → Option Text) (t : Text) : Prop :=
  ∃ a ∈ marks, a.simpleName = name ∧
    ∃ v, value a = some v ∧ (IsString v t ∨ IsConcatenation v t)

/-- Every text of the constraints is taken from an annotation that is there for it. -/
structure TakesTexts (marks : List Mark) (c : Constraints) : Prop where
  pattern : ∀ t, text? c.pattern = some t →
    IsTaken marks "Pattern" (·.named? "regexp") t
  rename : ∀ t, text? c.rename = some t →
    IsTaken marks "JsonProperty" Mark.value? t ∨ IsTaken marks "Json" (·.named? "name") t
  decimalMin : ∀ d, c.decimalMin = some d → IsTaken marks "DecimalMin" Mark.value? d.text
  decimalMax : ∀ d, c.decimalMax = some d → IsTaken marks "DecimalMax" Mark.value? d.text

lemma exists_argument_of_named? {a : Mark} {key v : Text} (h : a.named? key = some v) :
    ∃ arg ∈ a.arguments, arg.value = v := by
  obtain ⟨arg, hfind, rfl⟩ := Option.map_eq_some_iff.mp h
  exact ⟨arg, List.mem_of_find?_eq_some hfind, rfl⟩

lemma exists_argument_of_value? {a : Mark} {v : Text} (h : a.value? = some v) :
    ∃ arg ∈ a.arguments, arg.value = v := by
  rcases Option.or_eq_some_iff.mp h with h | ⟨-, h⟩
  · exact exists_argument_of_named? h
  · obtain ⟨arg, hget, rfl⟩ := Option.map_eq_some_iff.mp h
    exact ⟨arg, (List.mem_filter.mp (List.mem_of_getElem? hget)).1, rfl⟩

/-- A text that is read from the value of an argument is taken from it. -/
lemma isTaken_of_bind {s : Text} {a : Mark} (ha : a ∈ Mark.readAll s) {value : Mark → Option Text}
    (hvalue : ∀ v, value a = some v → ∃ arg ∈ a.arguments, arg.value = v) {t : Text}
    (h : (value a).bind stringLiteral? = some t) :
    IsTaken (Mark.readAll s) a.simpleName value t := by
  obtain ⟨v, hv, hliteral⟩ := Option.bind_eq_some_iff.mp h
  obtain ⟨arg, harg, rfl⟩ := hvalue v hv
  exact ⟨a, ha, rfl, arg.value, hv, (stringLiteral?_argument ha harg).mp hliteral⟩

lemma eq_some_of_text?_getD {o : Option Text} {t : Text} (h : text? (o.getD []) = some t) :
    o = some t := by
  cases o with
  | none => simp at h
  | some s => rw [(text?_eq_some_iff.mp h).1.symm, Option.getD_some]

lemma bind_of_decimalOf? {a : Mark} {d : DecimalBound} (h : decimalOf? a = some d) :
    a.value?.bind stringLiteral? = some d.text := by
  unfold decimalOf? at h
  split at h
  · simp at h
  · simp at h
  · next text _ htext =>
    obtain rfl := Option.some.inj h
    exact htext

/-- The texts that a list of annotations gives are taken from these annotations. -/
lemma takesTexts_foldl (s : Text) :
    TakesTexts (Mark.readAll s) ((Mark.readAll s).foldl add {}) := by
  have hname : ∀ {a : Mark} {r : Role}, Role.of? a = some r → ∀ {name : Text},
      (∀ p ∈ Role.names, p.2 = r → p.1 = name) → a.simpleName = name :=
    fun hr _ hnames => hnames _ (mem_names_of_of? hr) rfl
  refine ⟨fun t ht => ?_, fun t ht => Or.inl ?_, fun d hd => ?_, fun d hd => ?_⟩
  · obtain ⟨a, ha, hr, hset⟩ := isKept_pattern.exists_contributor ht
    have hpattern : a.simpleName = "Pattern" := hname hr (by decide)
    rw [← hpattern]
    exact isTaken_of_bind ha (fun _ => exists_argument_of_named?) (eq_some_of_text?_getD hset)
  · obtain ⟨a, ha, hr, hset⟩ := isKept_rename.exists_contributor ht
    have hproperty : a.simpleName = "JsonProperty" := hname hr (by decide)
    rw [← hproperty]
    exact isTaken_of_bind ha (fun _ => exists_argument_of_value?) (eq_some_of_text?_getD hset)
  · obtain ⟨a, ha, hr, hset⟩ := isKept_decimalMin.exists_contributor hd
    have hmin : a.simpleName = "DecimalMin" := hname hr (by decide)
    rw [← hmin]
    exact isTaken_of_bind ha (fun _ => exists_argument_of_value?) (bind_of_decimalOf? hset)
  · obtain ⟨a, ha, hr, hset⟩ := isKept_decimalMax.exists_contributor hd
    have hmax : a.simpleName = "DecimalMax" := hname hr (by decide)
    rw [← hmax]
    exact isTaken_of_bind ha (fun _ => exists_argument_of_value?) (bind_of_decimalOf? hset)

lemma takesTexts_ofJava (s : Text) : TakesTexts (Mark.readAll s) (ofJava s) := takesTexts_foldl s

lemma takesTexts_ofKotlin (s : Text) : TakesTexts (Mark.readAll (dropTargets s)) (ofKotlin s) := by
  have hjava := takesTexts_ofJava (dropTargets s)
  unfold ofKotlin
  cases hjson : (Mark.readAll (dropTargets s)).findSome? jsonNameOf? with
  | none => simpa [hjson] using hjava
  | some name =>
    simp only [hjson]
    refine ⟨hjava.pattern, fun t ht => Or.inr ?_, hjava.decimalMin, hjava.decimalMax⟩
    obtain ⟨a, ha, hname⟩ := List.exists_of_findSome?_eq_some hjson
    unfold jsonNameOf? at hname
    split at hname
    · next hcond =>
      rw [← hcond.2, ← (text?_eq_some_iff.mp ht).1]
      exact isTaken_of_bind ha (fun _ => exists_argument_of_named?)
        (Option.filter_eq_some_iff.mp hname).1
    · simp at hname

/-- A text is taken for a string exactly when it stands between two double quotes once it is
trimmed.  Every string literal is, and its content is what is found.  Of the other values that an
argument can have those are taken for a string that start with one literal and end with another one,
and no others.  The texts of the constraints of both dialects are all found in this way. -/
theorem stringLiteral?_accepts (s v t : Text) :
    (stringLiteral? v = some t ↔ trim v = inQuotes t) ∧
      (∀ a ∈ Mark.readAll s, ∀ arg ∈ a.arguments,
        (stringLiteral? arg.value = some t ↔
          IsString arg.value t ∨ IsConcatenation arg.value t) ∧
        (IsConcatenation arg.value t → ¬ isLiteralContent (ascii '"') t)) ∧
      TakesTexts (Mark.readAll s) (ofJava s) ∧
      TakesTexts (Mark.readAll (dropTargets s)) (ofKotlin s) :=
  ⟨stringLiteral?_eq_some_iff,
    fun _ ha _ harg => ⟨stringLiteral?_argument ha harg, fun h => h.not_isLiteralContent⟩,
    takesTexts_ofJava s, takesTexts_ofKotlin s⟩

/-- The text between the outermost quotes of a concatenation is not the content of a literal. -/
lemma isLiteralContent_concatenation : isLiteralContent (ascii '"') "a\" + \"b" = false := by
  have hsplit : utf8 "a\" + \"b" = utf8 "a" ++ ascii '"' :: utf8 " + \"b" := by decide
  rw [hsplit, not_isLiteralContent_append (by decide) (by decide)]

/-- The pattern of an annotation may be given as a concatenation. -/
theorem stringLiteral?_accepts_concatenation :
    ∃ a ∈ Mark.readAll "@Pattern(regexp = \"a\" + \"b\")", ∃ arg ∈ a.arguments,
      stringLiteral? arg.value = some (utf8 "a\" + \"b") ∧
        IsConcatenation arg.value (utf8 "a\" + \"b") := by
  have ha : (⟨[], "Pattern", some "regexp = \"a\" + \"b\"",
      "@Pattern(regexp = \"a\" + \"b\")"⟩ : Mark) ∈
        Mark.readAll "@Pattern(regexp = \"a\" + \"b\")" := by decide +kernel
  have harg : (⟨some "regexp", "\"a\" + \"b\""⟩ : Mark.Argument) ∈
      Mark.arguments ⟨[], "Pattern", some "regexp = \"a\" + \"b\"",
        "@Pattern(regexp = \"a\" + \"b\")"⟩ := by decide
  have hliteral : stringLiteral? "\"a\" + \"b\"" = some (utf8 "a\" + \"b") := by decide
  have hnot : ¬ isLiteralContent (ascii '"') "a\" + \"b" := by
    rw [isLiteralContent_concatenation]
    simp
  obtain ⟨hiff, -⟩ := (stringLiteral?_accepts _ [] (utf8 "a\" + \"b")).2.1 _ ha _ harg
  exact ⟨_, ha, _, harg, hliteral, (hiff.mp hliteral).resolve_left fun h => hnot h.2⟩

/-- A concatenation is taken for a string, although it is none, and becomes the pattern as it
stands. -/
theorem stringLiteral?_of_concatenation :
    stringLiteral? "\"a\" + \"b\"" = some (utf8 "a\" + \"b") ∧
      (∀ t, ¬ IsString (trim "\"a\" + \"b\"") t) ∧
      (ofJava "@Pattern(regexp = \"a\" + \"b\")").pattern = utf8 "a\" + \"b" := by
  have htrim : trim "\"a\" + \"b\"" = inQuotes "a\" + \"b" := by decide
  refine ⟨by decide, ?_, by decide +kernel⟩
  rintro t ⟨hquotes, hcontent⟩
  rw [htrim] at hquotes
  rw [← inQuotes_injective hquotes, isLiteralContent_concatenation] at hcontent
  exact absurd hcontent (by simp)

end DtoSchema.Constraints
