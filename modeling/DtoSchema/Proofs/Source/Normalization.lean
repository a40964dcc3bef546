import DtoSchema.Proofs.Source.ElidedScan
import DtoSchema.Proofs.Source.Lines

/-!
# Normalizing texts with emptied strings

Before declarations are looked for, comments are removed and header lines are closed.  A source and
its elision are normalized to a text and its elision.
-/

namespace DtoSchema.Source

open Text

/-! ### Comments -/

/-- The state arises when comments are looked for: only quotes open literals. -/
def Reading.isProper : Reading → Bool
  | .literal q => isQuote q
  | .escape q => isQuote q
  | _ => true

/-- Inert bytes start, end and hide no comment. -/
lemma not_mark_of_isInert {b : UInt8} (hb : isInert b) :
    isQuote b = false ∧ b ≠ ascii '/' ∧ b ≠ ascii '\\' ∧ b ≠ ascii '\n' := by
  obtain ⟨hquote, hescape⟩ := ne_of_isInert hb
  exact ⟨hquote, ne_of_class hb (by decide), hescape, ne_of_class hb (by decide)⟩

/-- A slash opens a comment together with what follows it. -/
lemma stripFrom_slash (s : Text) :
    stripFrom .code (ascii '/' :: s) =
      if s.head? = some (ascii '/') then stripFrom .lineComment s.tail
      else if s.head? = some (ascii '*') then stripFrom .blockComment s.tail
      else ascii '/' :: stripFrom .code s := by
  have hquote : isQuote (ascii '/') = false := by decide
  cases s <;> simp [stripFrom, hquote]

lemma stripFrom_code_inert {c : Text} (hc : c.all isInert) (t : Text) :
    stripFrom .code (c ++ t) = c ++ stripFrom .code t := by
  induction c with
  | nil => rfl
  | cons b c ih =>
    simp only [List.all_cons, Bool.and_eq_true] at hc
    obtain ⟨hquote, hslash, -, -⟩ := not_mark_of_isInert hc.1
    rw [List.cons_append, stripFrom_code_byte hquote hslash, ih hc.2]
    rfl

lemma stripFrom_literal_inert {c : Text} (hc : c.all isInert) {q : UInt8} (hq : isQuote q)
    (t : Text) : stripFrom (.literal q) (c ++ t) = c ++ stripFrom (.literal q) t := by
  induction c with
  | nil => rfl
  | cons b c ih =>
    simp only [List.all_cons, Bool.and_eq_true] at hc
    obtain ⟨hquote, -, hescape, hline⟩ := not_mark_of_isInert hc.1
    have hbq : b ≠ q := by
      rintro rfl
      simp [hquote] at hq
    rw [List.cons_append, stripFrom, if_neg hescape, if_neg (by tauto), ih hc.2]
    rfl

lemma stripFrom_lineComment {a : Text} (ha : ascii '\n' ∉ a) (t : Text) :
    stripFrom .lineComment (a ++ t) = stripFrom .lineComment t := by
  induction a with
  | nil => rfl
  | cons b a ih =>
    simp only [List.mem_cons, not_or] at ha
    rw [List.cons_append, stripFrom, if_neg (Ne.symm ha.1), ih ha.2]

/-- A byte that is not the start of the closing mark is passed in a comment. -/
lemma stripFrom_blockComment_byte {b : UInt8} {t : Text}
    (h : b ≠ ascii '*' ∨ t.head? ≠ some (ascii '/')) :
    stripFrom .blockComment (b :: t) = stripFrom .blockComment t := by
  cases t with
  | nil => rfl
  | cons c t =>
    have hne : ¬ (b = ascii '*' ∧ c = ascii '/') := by
      rintro ⟨rfl, rfl⟩
      simp at h
    rw [stripFrom, if_neg hne]

lemma stripFrom_blockComment {a t : Text} (ha : ascii '/' ∉ a) (ht : t.head? ≠ some (ascii '/')) :
    stripFrom .blockComment (a ++ t) = stripFrom .blockComment t := by
  induction a with
  | nil => rfl
  | cons b a ih =>
    simp only [List.mem_cons, not_or] at ha
    have hhead := head?_append_ne (fun h => ha.2 (List.mem_of_mem_head? h)) ht
    rw [List.cons_append, stripFrom_blockComment_byte (Or.inr hhead), ih ha.2]

/-- A string is kept as it is, or it stands in a comment and is dropped; what follows is read in the
same way whatever its content. -/
lemma stripFrom_string {k : Reading} (hk : k.isProper) :
    (∃ k' : Reading, k'.isProper ∧ ∀ c : Text, c.all isInert → ∀ t : Text,
      stripFrom k (ascii '"' :: (c ++ ascii '"' :: t)) =
        ascii '"' :: (c ++ ascii '"' :: stripFrom k' t)) ∨
      ∀ c : Text, c.all isInert → ∀ t : Text,
        stripFrom k (ascii '"' :: (c ++ ascii '"' :: t)) = stripFrom k t := by
  have hquote : isQuote (ascii '"') := by decide
  have hescape : ascii '"' ≠ ascii '\\' := by decide
  have hline : ascii '"' ≠ ascii '\n' := by decide
  -- a quote of the other kind does not close a literal
  have hliteral : ∀ {q : UInt8}, isQuote q → ∃ k' : Reading, k'.isProper ∧ ∀ t : Text,
      stripFrom (.literal q) (ascii '"' :: t) = ascii '"' :: stripFrom k' t := by
    intro q hq
    by_cases h : ascii '"' = q
    · exact ⟨.code, rfl, fun t => by rw [stripFrom, if_neg hescape, if_pos (Or.inl h)]⟩
    · exact ⟨.literal q, hq, fun t => by rw [stripFrom, if_neg hescape, if_neg (by tauto)]⟩
  have hsame : ∀ {c : Text}, c.all isInert → ∀ b, isInert b = false → b ∉ c := by
    intro c hc b hb hmem
    simp [List.all_eq_true.mp hc b hmem] at hb
  cases k with
  | code =>
    obtain ⟨k', hk', hclose⟩ := hliteral hquote
    refine Or.inl ⟨k', hk', fun c hc t => ?_⟩
    rw [stripFrom_quote hquote, stripFrom_literal_inert hc hquote, hclose]
  | literal q =>
    by_cases h : ascii '"' = q
    · refine Or.inl ⟨.literal (ascii '"'), hquote, fun c hc t => ?_⟩
      rw [stripFrom, if_neg hescape, if_pos (Or.inl h), stripFrom_code_inert hc,
        stripFrom_quote hquote]
    · refine Or.inl ⟨.literal q, hk, fun c hc t => ?_⟩
      rw [stripFrom, if_neg hescape, if_neg (by tauto), stripFrom_literal_inert hc hk, stripFrom,
        if_neg hescape, if_neg (by tauto)]
  | escape q =>
    obtain ⟨k', hk', hclose⟩ := hliteral hk
    refine Or.inl ⟨k', hk', fun c hc t => ?_⟩
    rw [stripFrom, stripFrom_literal_inert hc hk, hclose]
  | lineComment =>
    refine Or.inr fun c hc t => ?_
    have hmem : ascii '\n' ∉ ascii '"' :: (c ++ [ascii '"']) := by
      have hc' := hsame hc (ascii '\n') (by decide)
      simp [hline.symm, hc']
    simpa using stripFrom_lineComment hmem t
  | blockComment =>
    refine Or.inr fun c hc t => ?_
    have hmem : ascii '/' ∉ ascii '"' :: c := by
      have hc' := hsame hc (ascii '/') (by decide)
      have hne : ascii '/' ≠ ascii '"' := by decide
      simp [hne, hc']
    have hne : ascii '"' ≠ ascii '*' := by decide
    have hhead : (ascii '"' :: t).head? ≠ some (ascii '/') := fun h =>
      absurd (Option.some.inj h) (by decide)
    calc Source.stripFrom .blockComment (ascii '"' :: (c ++ ascii '"' :: t))
        = Source.stripFrom .blockComment (ascii '"' :: t) :=
          stripFrom_blockComment (t := ascii '"' :: t) hmem hhead
      _ = Source.stripFrom .blockComment t := stripFrom_blockComment_byte (Or.inl hne)

namespace Elides

variable {ok : Text → Bool} {s t r u : Text}

lemma tail {c : UInt8} (h : Elides ok .kept s r) (hhead : s.head? = some c) (hc : c ≠ ascii '"') :
    Elides ok .kept s.tail r.tail := by
  cases s with
  | nil => simp at hhead
  | cons b s =>
    obtain rfl : b = c := by simpa using hhead
    obtain ⟨r', rfl, h'⟩ := h.of_cons hc (by simp)
    exact h'

/-- A text and its elision have the same comments, up to the strings in them. -/
theorem stripFrom (h : Elides ok .kept s r) {k : Reading} (hk : k.isProper) :
    Elides ok .kept (Source.stripFrom k s) (Source.stripFrom k r) := by
  induction hn : s.length using Nat.strong_induction_on generalizing s r k with
  | _ n ih =>
    -- the bytes behind the first one, and those behind the first two
    have hrest : ∀ {s' r' : Text} {k : Reading}, s'.length < n → Elides ok .kept s' r' → k.isProper →
        Elides ok .kept (Source.stripFrom k s') (Source.stripFrom k r') :=
      fun hlt h' hk' => ih _ hlt h' hk' rfl
    cases h with
    | nil => cases k <;> exact .nil
    | @byte _ b s r h =>
      simp only [Spacing.next_kept, List.length_cons] at h hn
      have htail : ∀ {k : Reading}, k.isProper →
          Elides ok .kept (Source.stripFrom k s) (Source.stripFrom k r) :=
        fun hk => hrest (by omega) h hk
      have hbehind : ∀ {c : UInt8} {k : Reading}, s.head? = some c → c ≠ ascii '"' → k.isProper →
          Elides ok .kept (Source.stripFrom k s.tail) (Source.stripFrom k r.tail) := by
        intro c k hhead hc hk
        refine hrest ?_ (h.tail hhead hc) hk
        rw [List.length_tail]
        omega
      cases k with
      | code =>
        by_cases hquote : isQuote b
        · rw [stripFrom_quote hquote, stripFrom_quote hquote]
          exact .byte b (htail hquote)
        by_cases hslash : b = ascii '/'
        · subst hslash
          rw [stripFrom_slash, stripFrom_slash, ← h.head?_eq]
          split
          · next hhead => exact hbehind hhead (by decide) rfl
          · split
            · next hhead => exact hbehind hhead (by decide) rfl
            · exact .byte _ (htail rfl)
        · rw [stripFrom_code_byte (by simpa using hquote) hslash,
            stripFrom_code_byte (by simpa using hquote) hslash]
          exact .byte b (htail rfl)
      | literal q =>
        rw [Source.stripFrom, Source.stripFrom]
        split
        · exact .byte b (htail hk)
        · split
          · exact .byte b (htail rfl)
          · exact .byte b (htail hk)
      | escape q => exact .byte b (htail hk)
      | lineComment =>
        rw [Source.stripFrom, Source.stripFrom]
        split
        · exact .byte b (htail rfl)
        · exact htail rfl
      | blockComment =>
        by_cases hclose : b = ascii '*' ∧ s.head? = some (ascii '/')
        · have hcode : ∀ {t : Text}, t.head? = some (ascii '/') →
              Source.stripFrom .blockComment (b :: t) = Source.stripFrom .code t.tail := by
            intro t ht
            cases t with
            | nil => simp at ht
            | cons c t =>
              rw [Source.stripFrom, if_pos ⟨hclose.1, by simpa using ht⟩]
              rfl
          rw [hcode hclose.2, hcode (h.head?_eq ▸ hclose.2)]
          exact hbehind hclose.2 (by decide) rfl
        · have hpass : ∀ {t : Text}, t.head? = s.head? →
              Source.stripFrom .blockComment (b :: t) = Source.stripFrom .blockComment t :=
            fun ht => stripFrom_blockComment_byte (by rw [ht]; tauto)
          rw [hpass rfl, hpass h.head?_eq.symm]
          exact htail rfl
    | @string _ c s r hc hok h =>
      simp only [List.length_cons, List.length_append] at hn
      have hempty : ∀ t : Text, ascii '"' :: ascii '"' :: t = ascii '"' :: ([] ++ ascii '"' :: t) :=
        fun _ => rfl
      rcases stripFrom_string hk with ⟨k', hk', hkeep⟩ | hdrop
      · rw [hkeep c hc, hempty, hkeep [] rfl]
        exact .string hc hok (hrest (by omega) h hk')
      · rw [hdrop c hc, hempty, hdrop [] rfl]
        exact hrest (by omega) h hk

lemma stripComments (h : Elides ok .kept s r) :
    Elides ok .kept (Source.stripComments s) (Source.stripComments r) := h.stripFrom rfl

end Elides

/-! ### Lines -/

/-- A line end of two bytes at the start of a text. -/
lemma isPrefixOf_lineEnd (b : UInt8) (s : Text) :
    (utf8 "\r\n").isPrefixOf (b :: s) ↔ b = ascii '\r' ∧ s.head? = some (ascii '\n') := by
  have hbytes : utf8 "\r\n" = [ascii '\r', ascii '\n'] := by decide
  rw [hbytes]
  cases s with
  | nil => simp [List.isPrefixOf]
  | cons c s =>
    simp only [List.isPrefixOf, Bool.and_true, Bool.and_eq_true, beq_iff_eq, List.head?_cons,
      Option.some.injEq]
    exact and_congr eq_comm eq_comm

/-- Line ends, one byte at a time. -/
lemma replaceAll_lineEnd (b : UInt8) (s : Text) :
    replaceAll "\r\n" "\n" (b :: s) =
      if b = ascii '\r' ∧ s.head? = some (ascii '\n') then
        ascii '\n' :: replaceAll "\r\n" "\n" s.tail
      else b :: replaceAll "\r\n" "\n" s := by
  have hends := isPrefixOf_lineEnd b s
  rw [replaceAll, replaceFrom]
  by_cases h : b = ascii '\r' ∧ s.head? = some (ascii '\n')
  · rw [if_pos (hends.mpr h), if_pos h]
    cases s with
    | nil => simp at h
    | cons c s => rfl
  · rw [if_neg (fun hp => h (hends.mp hp)), if_neg h]
    rfl

/-- Without line feeds there are no line ends. -/
lemma replaceAll_lineEnd_append {a : Text} (ha : ascii '\n' ∉ a) {t : Text}
    (ht : t.head? ≠ some (ascii '\n')) :
    replaceAll "\r\n" "\n" (a ++ t) = a ++ replaceAll "\r\n" "\n" t := by
  induction a with
  | nil => rfl
  | cons b a ih =>
    simp only [List.mem_cons, not_or] at ha
    have hhead := head?_append_ne (fun h => ha.2 (List.mem_of_mem_head? h)) ht
    rw [List.cons_append, replaceAll_lineEnd, if_neg fun h => hhead h.2, ih ha.2]
    rfl

namespace Elides

variable {ok : Text → Bool} {s t r u : Text}

/-- A byte that can stand in no string stands in both texts or in none. -/
lemma mem_iff {m : Spacing} {b : UInt8} (h : Elides ok m s r) (hb : isInert b = false) :
    b ∈ s ↔ b ∈ r := by
  induction h with
  | nil => rfl
  | byte a _ ih => simp [ih]
  | @string m c s r hc _ _ ih =>
    have hmem : b ∉ c := fun hmem => by simp [List.all_eq_true.mp hc b hmem] at hb
    simp [ih, hmem]
  | blanks n _ ih => simp [ih]

/-- No line feed stands in a string. -/
lemma lineFeed_not_mem {c : Text} (hc : c.all isInert) :
    ascii '\n' ∉ ascii '"' :: (c ++ [ascii '"']) := by
  have hmem : ascii '\n' ∉ c := fun hmem =>
    absurd (List.all_eq_true.mp hc _ hmem) (by decide)
  have hne : ascii '\n' ≠ ascii '"' := by decide
  simp [hmem, hne]

lemma lineEnds (h : Elides ok .kept s r) :
    Elides ok .kept (replaceAll "\r\n" "\n" s) (replaceAll "\r\n" "\n" r) := by
  induction hn : s.length using Nat.strong_induction_on generalizing s r with
  | _ n ih =>
    cases h with
    | nil => exact .nil
    | @byte _ b s r h =>
      simp only [Spacing.next_kept, List.length_cons] at h hn
      rw [replaceAll_lineEnd, replaceAll_lineEnd, ← h.head?_eq]
      split
      · next hend =>
        refine .byte _ (ih s.tail.length ?_ (h.tail hend.2 (by decide)) rfl)
        rw [List.length_tail]
        omega
      · exact .byte b (ih s.length (by omega) h rfl)
    | @string _ c s r hc hok h =>
      simp only [List.length_cons, List.length_append] at hn
      have hquote : ∀ {c : Text}, c.all isInert → ∀ t : Text,
          replaceAll "\r\n" "\n" (ascii '"' :: (c ++ ascii '"' :: t)) =
            ascii '"' :: (c ++ ascii '"' :: replaceAll "\r\n" "\n" t) := by
        intro c hc t
        have hmem := lineFeed_not_mem hc
        rw [← List.cons_append, List.mem_append, not_or] at hmem
        have hne : ¬ (ascii '"' = ascii '\r' ∧ t.head? = some (ascii '\n')) := fun h =>
          absurd h.1 (by decide)
        have hhead : (ascii '"' :: t).head? ≠ some (ascii '\n') := fun h =>
          absurd (Option.some.inj h) (by decide)
        rw [← List.cons_append, replaceAll_lineEnd_append hmem.1 hhead, replaceAll_lineEnd,
          if_neg hne]
        rfl
      have hempty := hquote (c := []) rfl r
      rw [hquote hc, show ascii '"' :: ascii '"' :: r = ascii '"' :: ([] ++ ascii '"' :: r) from rfl,
        hempty]
      exact .string hc hok (ih s.length (by omega) h rfl)

lemma pieces (h : Elides ok .kept s r) :
    List.Forall₂ (Elides ok .kept) (Text.pieces (ascii '\n') s) (Text.pieces (ascii '\n') r) := by
  suffices hparts : Parts ok .kept (Text.pieces (ascii '\n') s) (Text.pieces (ascii '\n') r) from
    hparts.forall₂
  generalize hm : Spacing.kept = m at h ⊢
  induction h with
  | nil => exact ⟨.nil, .nil⟩
  | @byte m b s r _ ih =>
    subst hm
    by_cases hb : b = ascii '\n'
    · rw [Text.pieces, if_pos hb, Text.pieces, if_pos hb]
      exact ⟨.nil, (ih rfl).forall₂⟩
    · rw [pieces_cons hb, pieces_cons hb]
      exact (ih rfl).glue rfl fun h => .byte b h
  | @string m c s r hc hok _ ih =>
    subst hm
    have hstring := pieces_glue (lineFeed_not_mem hc) s
    have hempty := pieces_glue (lineFeed_not_mem (c := []) rfl) r
    simp only [List.cons_append, List.append_assoc, List.nil_append] at hstring hempty
    rw [hstring, hempty]
    refine (ih rfl).glue rfl fun h => ?_
    simpa using Elides.string hc hok h
  | blanks => simp at hm

lemma join {sep : Text} {xs ys : List Text} (h : List.Forall₂ (Elides ok .kept) xs ys) :
    Elides ok .kept (Text.join sep xs) (Text.join sep ys) := by
  induction h with
  | nil => exact .nil
  | @cons x y xs ys hx hxs ih =>
    cases hxs with
    | nil => simpa [Text.join] using hx
    | @cons x' y' xs ys hx' hxs =>
      rw [join_cons_cons, join_cons_cons]
      exact (hx.append (refl sep)).append ih

lemma dropWhileEnd {p : UInt8 → Bool} (hp : p (ascii '"') = false) (h : Elides ok .kept s r) :
    Elides ok .kept (Text.dropWhileEnd p s) (Text.dropWhileEnd p r) := by
  refine of_reverse ?_
  have hdrop := h.reverse.dropWhile hp
  simpa [Text.dropWhileEnd] using hdrop

lemma isOpenHeader_eq (h : Elides ok .kept s r) : isOpenHeader s = isOpenHeader r := by
  have hblank : Elides ok .kept (s.dropWhile isBlank) (r.dropWhile isBlank) :=
    h.dropWhile (by decide)
  have hword : Option.Rel (Elides ok .kept) (afterHeaderWord? s) (afterHeaderWord? r) := by
    have himport := hblank.afterPrefix? (p := utf8 "import") (by decide)
    have hpackage := hblank.afterPrefix? (p := utf8 "package") (by decide)
    rw [Spacing.foldl_kept] at himport hpackage
    exact rel_or himport hpackage
  unfold isOpenHeader
  generalize afterHeaderWord? s = x at hword ⊢
  generalize afterHeaderWord? r = y at hword ⊢
  cases hword with
  | none => rfl
  | @some s r h =>
    have hlast := (h.dropWhileEnd (p := isBlank) (by decide)).getLast?_eq
    have hmem := h.mem_iff (b := ascii ';') (by decide)
    simp only [h.head?_eq, hlast, hmem]

lemma closeHeader (h : Elides ok .kept s r) :
    Elides ok .kept (Source.closeHeader s) (Source.closeHeader r) := by
  unfold Source.closeHeader
  rw [h.isOpenHeader_eq]
  split
  · exact (h.dropWhileEnd (by decide)).append (refl _)
  · exact h

/-- A source and its elision are normalized to a text and its elision. -/
theorem normalize (h : Elides ok .kept s r) :
    Elides ok .kept (Source.normalize s) (Source.normalize r) := by
  have hlines := h.stripComments.lineEnds.pieces
  refine join ?_
  rw [List.forall₂_map_left_iff, List.forall₂_map_right_iff]
  exact hlines.imp fun _ _ h => h.closeHeader

end Elides

end DtoSchema.Source
