import DtoSchema.Proofs.Declaration.Java.Class
import DtoSchema.Proofs.Declaration.Kotlin.Body
import DtoSchema.Proofs.Declaration.Kotlin.PropertyTail

/-!
# Nested blocks of a class body

A class body is read in two parts wherever the text before the cut is balanced: the first part
leaves a statement begun (`Java.statements_append`), or lines and annotations that wait for their property
(`Kotlin.propertiesFrom_append`), and reading goes on from there.

What stands in a block behind such a text makes no difference to the fields of the class.  Java
drops the block with its statement (`Java.bodyFields_block`).  Kotlin blanks it: the statement in front of
its brace declares a property or not without regard to what follows, and the lines of the block
declare nothing and leave no annotation behind (`Kotlin.propertiesFrom_block`).
-/

namespace DtoSchema.Declaration

open Text Source

lemma mem_pairs_grouping {o c : UInt8} (h : (o, c) ∈ Brackets.grouping.pairs) :
    (o = ascii '(' ∧ c = ascii ')') ∨ (o = ascii '[' ∧ c = ascii ']') ∨
      (o = ascii '\x7b' ∧ c = ascii '\x7d') := by
  have hpairs : Brackets.grouping.pairs = [(ascii '(', ascii ')'), (ascii '[', ascii ']'),
      (ascii '\x7b', ascii '\x7d')] := by decide
  simpa [hpairs] using h

/-! ### Java -/

namespace Java

/-- The statement that pieces leave begun. -/
def begunFrom (begun : Text) : List Piece → Text
  | [] => begun
  | .byte b :: ps => begunFrom (if b = ascii ';' then [] else begun ++ [b]) ps
  | .closed t :: ps => begunFrom (begun ++ t) ps
  | .block t :: ps =>
    begunFrom (if (topLevelIndex? (ascii '=') begun).isSome then begun ++ t else []) ps

/-- The statement that a text leaves begun. -/
def begun (s : Text) : Text := begunFrom [] (bodyPieces s)

lemma statementsFrom_append (ps qs : List Piece) (begun : Text) :
    statementsFrom begun (ps ++ qs) =
      statementsFrom begun ps ++ statementsFrom (begunFrom begun ps) qs := by
  induction ps generalizing begun with
  | nil => rfl
  | cons p ps ih =>
    cases p with
    | byte b =>
      simp only [List.cons_append, statementsFrom, begunFrom]
      split
      · rw [ih, List.cons_append]
      · exact ih _
    | closed t => exact ih _
    | block t =>
      simp only [List.cons_append, statementsFrom, begunFrom]
      split <;> exact ih _

/-- A balanced text falls into pieces apart from what follows it. -/
lemma bodyPieces_append {sep : UInt8 → Bool} {s : Text} (hs : Nested .grouping sep s) (t : Text) :
    bodyPieces (s ++ t) = bodyPieces s ++ bodyPieces t := by
  have hplain : ∀ b, Brackets.grouping.isPlain b = true →
      isQuote b = false ∧ b ≠ ascii '(' ∧ b ≠ ascii '\x7b' := fun b hb =>
    ⟨isQuote_of_isPlain hb, ne_of_class hb (by decide), ne_of_class hb (by decide)⟩
  induction hs generalizing t with
  | nil => rfl
  | @byte _ b s hb _ _ ih =>
    obtain ⟨hquote, hopen, hbrace⟩ := hplain b hb
    rw [List.cons_append, bodyPieces_byte hquote hopen hbrace, bodyPieces_byte hquote hopen hbrace,
      ih, List.cons_append]
  | @literal _ q l s hq hl _ ih =>
    rw [List.cons_append, List.append_assoc, bodyPieces_literal hq hl, bodyPieces_literal hq hl, ih,
      List.cons_append]
  | @group _ o c i s hp hi _ ihi ih =>
    rw [List.cons_append, List.append_assoc, List.cons_append]
    rcases mem_pairs_grouping hp with ⟨rfl, rfl⟩ | ⟨rfl, rfl⟩ | ⟨rfl, rfl⟩
    · have hparens : Balanced (.single (ascii '(') (ascii ')')) i := hi.part (by decide)
      have hread := readBalanced?_nested (by decide) hparens
      rw [bodyPieces_parens (hread _), bodyPieces_parens (hread _), ih]
      rfl
    · have hbyte : ∀ {b : UInt8}, b = ascii '[' ∨ b = ascii ']' → ∀ u,
          bodyPieces (b :: u) = .byte b :: bodyPieces u := by
        rintro b (rfl | rfl) u <;> exact bodyPieces_byte (by decide) (by decide) (by decide) u
      rw [hbyte (Or.inl rfl), hbyte (Or.inl rfl), ihi, ihi, hbyte (Or.inr rfl), hbyte (Or.inr rfl),
        ih]
      simp
    · have hbraces : Balanced .braces i := hi.part (by decide)
      have hread := readBalanced?_nested (by decide) hbraces
      rw [bodyPieces_braces (hread _), bodyPieces_braces (hread _), ih, List.cons_append]

/-- A body is read in two parts: the statement that the first part leaves begun goes on in the
second. -/
lemma statements_append {sep : UInt8 → Bool} {s : Text} (hs : Nested .grouping sep s) (t : Text) :
    statements (s ++ t) = statements s ++ scan (begun s) t := by
  rw [statements, bodyPieces_append hs, statementsFrom_append]
  rfl

/-- A block without an equals sign in front ends its statement, and both declare nothing. -/
lemma bodyFields_block {sep : UInt8 → Bool} {pre c : Text} (hpre : Nested .grouping sep pre)
    (hbegun : topLevelIndex? (ascii '=') (begun pre) = none) (hc : Balanced .braces c)
    (post : Text) :
    bodyFields (pre ++ blockText c ++ post) = bodyFields pre ++ bodyFields post := by
  have hblock : blockText c ++ post = ascii '\x7b' :: (c ++ ascii '\x7d' :: post) := by
    simp [blockText]
  rw [bodyFields, List.append_assoc, statements_append hpre, hblock, scan_block hbegun hc,
    List.flatMap_append]
  rfl

end Java

/-! ### Kotlin -/

namespace Kotlin

/-- The annotations that statements leave waiting for their property. -/
def keptFrom (pending : Text) : List Text → Text
  | [] => pending
  | s :: ss =>
    if (trim s).isEmpty then keptFrom pending ss
    else if (Mark.afterLeading (trim s)).isEmpty then keptFrom (pending ++ trim s ++ " ") ss
    else keptFrom [] ss

lemma propertiesFrom_append (ss ts : List Text) (pending : Text) :
    propertiesFrom pending (ss ++ ts) =
      propertiesFrom pending ss ++ propertiesFrom (keptFrom pending ss) ts := by
  induction ss generalizing pending with
  | nil => rfl
  | cons s ss ih =>
    simp only [List.cons_append, propertiesFrom, keptFrom]
    split
    · exact ih _
    · split
      · exact ih _
      · rw [ih, List.append_assoc]

section Nested

variable {brackets : Brackets} {sep : UInt8 → Bool} (hB : suitsMarks brackets)
include hB

lemma nested_trim {s : Text} (hs : Nested brackets sep s) : Nested brackets sep (trim s) :=
  nested_trimEnd hB (nested_trimStart hB hs)

/-- Annotations that wait are nested if their statements are. -/
lemma nested_keptFrom (hsep : sep (ascii ' ') = false) {ss : List Text}
    (hss : ∀ s ∈ ss, Nested brackets sep s) {pending : Text} (hp : Nested brackets sep pending) :
    Nested brackets sep (keptFrom pending ss) := by
  induction ss generalizing pending with
  | nil => exact hp
  | cons s ss ih =>
    obtain ⟨hs, hrest⟩ := List.forall_mem_cons.mp hss
    rw [keptFrom]
    split
    · exact ih hrest hp
    · split
      · refine ih hrest ((hp.append (nested_trim hB hs)).append (.of_plain ?_))
        have hbyte := isPlain_of_isMarkByte hB (b := ascii ' ') (by decide)
        simp [utf8_space, hbyte, hsep]
      · exact ih hrest .nil

/-- What a statement declares in front of a brace does not depend on what stands behind the brace,
and no annotation waits behind it. -/
lemma propertiesFrom_open {pending s : Text} (hp : Nested brackets sep pending)
    (hs : Nested brackets sep s) (x : Text) (ss : List Text) :
    propertiesFrom pending ((s ++ ascii '\x7b' :: x) :: ss) =
      (property? (pending ++ (trimStart s ++ [ascii '\x7b']))).toList ++ propertiesFrom [] ss := by
  have hink : isInk (ascii '\x7b') := by decide
  have hstop : ∀ x, Stops (ascii '\x7b' :: x) := .cons (by decide)
  have hstart := nested_trimStart hB hs
  have htrim := trim_append_ink hink s x
  have hafter : Mark.afterLeading (trimStart s ++ ascii '\x7b' :: trimEnd x) ≠ [] := by
    rw [afterLeading_append hB hstart (hstop _).isTail]
    split
    · rw [afterLeading_eq_self (by decide) (by decide)]
      simp
    · simp
  have hproperty := property?_brace hB (hp.append hstart) (trimEnd x)
  rw [List.append_assoc, List.append_assoc] at hproperty
  rw [propertiesFrom]
  simp only [htrim, List.isEmpty_iff, hafter, if_false, hproperty]
  simp

end Nested

/-- A text that starts with a stop declares nothing. -/
lemma property?_stop {k : UInt8} (hk : isStop k) (x : Text) : property? (k :: x) = none := by
  have hink := (of_isStop hk).1
  have hmarks : leadingMarks? spaces (· ∈ modifiers) [] = some ([], []) := rfl
  have htyped : typed? [] = none := by decide
  have hread := propertyWith?_stops (by decide) (.nil : Nested .parens isLineEnd [])
    (.cons hk (trimEnd x))
    (by rw [List.nil_append, ← List.nil_append (k :: trimEnd x), trimEnd_append_ink hink,
      trimEnd_trimEnd]) []
  rw [hmarks, Option.bind_some, htyped, Option.bind_none] at hread
  rwa [← propertyWith?_nil, ← propertyWith?_trimEnd, ← List.nil_append (k :: x),
    trimEnd_append_ink hink]

/-- The line that ends a block declares nothing, whatever stands behind the brace. -/
lemma propertiesFrom_close (n : ℕ) (x : Text) (ss : List Text) :
    propertiesFrom [] ((List.replicate n (ascii ' ') ++ ascii '\x7d' :: x) :: ss) =
      propertiesFrom [] ss := by
  have hink : isInk (ascii '\x7d') := by decide
  have hgaps : (List.replicate n (ascii ' ')).all isGap := by
    refine List.all_eq_true.mpr fun b hb => ?_
    rw [List.eq_of_mem_replicate hb]
    decide
  have htrim : trim (List.replicate n (ascii ' ') ++ ascii '\x7d' :: x) =
      ascii '\x7d' :: trimEnd x := by
    rw [trim, trimStart_gaps hgaps, trimStart_ink hink, ← List.nil_append (ascii '\x7d' :: x),
      trimEnd_append_ink hink, List.nil_append]
  rw [propertiesFrom]
  simp [htrim, afterLeading_eq_self (b := ascii '\x7d') (by decide) (by decide),
    property?_stop (k := ascii '\x7d') (by decide)]

/-- The lines of a statement go on over a byte that ends none. -/
lemma segments_byte {b : UInt8} (hb : Brackets.parens.isPlain b) (hend : isLineEnd b = false)
    (t : Text) :
    segments .parens isLineEnd {} (b :: t) = glue [b] (segments .parens isLineEnd {} t) := by
  have hnested : Nested .parens isLineEnd [b] := .byte hb hend .nil
  exact segments_nested (by decide) hnested (by simp) t

lemma segments_newline (t : Text) :
    segments .parens isLineEnd {} (ascii '\n' :: t) = [] :: segments .parens isLineEnd {} t :=
  segments_cut (by decide) t

/-- A block that is blanked declares nothing and leaves no annotation behind: the text behind it
counts from its next line on. -/
lemma propertiesFrom_blanks (c t : Text) (n : ℕ) :
    propertiesFrom [] (glue (List.replicate n (ascii ' '))
        (segments .parens isLineEnd {} (blanks c ++ ascii '\x7d' :: t))) =
      propertiesFrom [] (segments .parens isLineEnd {} t).tail := by
  induction c generalizing n with
  | nil =>
    obtain ⟨p, ps, hps⟩ := exists_segments_cons .parens isLineEnd {} t
    rw [blanks, List.map_nil, List.nil_append, segments_byte (by decide) (by decide), hps]
    simpa [glue] using propertiesFrom_close n p ps
  | cons b c ih =>
    by_cases hb : b = ascii '\n'
    · have hline : blanks (b :: c) = ascii '\n' :: blanks c := by simp [blanks, hb]
      have hempty : trim (List.replicate n (ascii ' ')) = [] := trim_append_spaces (s := []) rfl n
      have hrest := ih 0
      rw [List.replicate_zero, glue_nil (segments_ne_nil _ _)] at hrest
      rw [hline, List.cons_append, segments_newline, glue_cons, List.append_nil, propertiesFrom,
        ← hrest]
      simp [hempty]
    · have hspace : blanks (b :: c) = ascii ' ' :: blanks c := by simp [blanks, hb]
      rw [hspace, List.cons_append, segments_byte (by decide) (by decide), ← glue_append,
        ← List.replicate_succ', ih]

/-- A blanked block behind a statement declares what the statement declares in front of it. -/
lemma propertiesFrom_block {pending s : Text} (hp : Nested .parens isLineEnd pending)
    (hs : Nested .parens isLineEnd s) (c t x : Text) :
    propertiesFrom pending (glue (s ++ ascii '\x7b' :: x)
        (segments .parens isLineEnd {} (blanks c ++ ascii '\x7d' :: t))) =
      (property? (pending ++ (trimStart s ++ [ascii '\x7b']))).toList ++
        propertiesFrom [] (segments .parens isLineEnd {} t).tail := by
  have hopen := propertiesFrom_open (by decide : suitsMarks .parens) hp hs
  induction c generalizing x with
  | nil =>
    obtain ⟨p, ps, hps⟩ := exists_segments_cons .parens isLineEnd {} t
    rw [blanks, List.map_nil, List.nil_append, segments_byte (by decide) (by decide), hps]
    simpa [glue] using hopen (x ++ [ascii '\x7d'] ++ p) ps
  | cons b c ih =>
    by_cases hb : b = ascii '\n'
    · have hline : blanks (b :: c) = ascii '\n' :: blanks c := by simp [blanks, hb]
      have hrest := propertiesFrom_blanks c t 0
      rw [List.replicate_zero, glue_nil (segments_ne_nil _ _)] at hrest
      rw [hline, List.cons_append, segments_newline, glue_cons, List.append_nil, hopen, hrest]
    · have hspace : blanks (b :: c) = ascii ' ' :: blanks c := by simp [blanks, hb]
      rw [hspace, List.cons_append, segments_byte (by decide) (by decide), ← glue_append,
        List.append_assoc, List.cons_append, ih]

/-! ### Blanking in parts -/

lemma blankFrom_append (p : Place) (s t : Text) :
    blankFrom p (s ++ t) = blankFrom p s ++ blankFrom (p.after .braces s) t := by
  induction s generalizing p with
  | nil => rfl
  | cons b s ih =>
    rw [List.cons_append, blankFrom, blankFrom, ih]
    rfl

/-- A text whose braces match is blanked apart from what follows it. -/
lemma blankFrom_balanced {s : Text} (hs : Balanced .braces s) (t : Text) :
    blankFrom {} (s ++ t) = blankFrom {} s ++ blankFrom {} t := by
  rw [blankFrom_append, Place.after_nested (by decide) hs]

/-- Blanking leaves parentheses and square brackets balanced. -/
lemma balanced_blankFrom {sep : UInt8 → Bool} {s : Text} (hs : Nested .grouping sep s) :
    Balanced .parens (blankFrom {} s) := by
  have hplain : ∀ b, Brackets.grouping.isPlain b = true →
      Brackets.braces.isPlain b = true ∧ Brackets.parens.isPlain b = true := fun b hb =>
    ⟨Brackets.isPlain_of_isPartOf (by decide) hb, Brackets.isPlain_of_isPartOf (by decide) hb⟩
  induction hs with
  | nil => exact .nil
  | @byte _ b s hb _ _ ih =>
    obtain ⟨hbraces, hparens⟩ := hplain b hb
    rw [blankFrom, Place.step_plain hbraces, blanked_outside rfl]
    exact .byte hparens rfl ih
  | @literal _ q l s hq hl _ ih =>
    rw [blankFrom, Place.step_quote hq, blanked_outside rfl, blankFrom_literal_outside hl]
    exact .literal hq hl ih
  | @group _ o c i s hp hi _ ihi ih =>
    have hbraces : Balanced .braces i := hi.part (by decide)
    have hgroup : (o, c) ∈ Brackets.parens.pairs → Brackets.braces.isPlain o →
        Brackets.braces.isPlain c → Balanced .parens (blankFrom {} (o :: (i ++ c :: s))) := by
      intro hpair ho hc
      rw [blankFrom, Place.step_plain ho, blanked_outside rfl, blankFrom_balanced hbraces,
        blankFrom, Place.step_plain hc, blanked_outside rfl]
      exact .group hpair ihi ih
    rcases mem_pairs_grouping hp with ⟨rfl, rfl⟩ | ⟨rfl, rfl⟩ | ⟨rfl, rfl⟩
    · exact hgroup (by decide) (by decide) (by decide)
    · exact hgroup (by decide) (by decide) (by decide)
    · have hblanks : Balanced .parens (blanks i) := .of_plain <| List.all_eq_true.mpr fun b hb => by
        obtain ⟨d, -, rfl⟩ := List.mem_map.mp hb
        split
        · next hd =>
          rw [hd]
          decide
        · decide
      rw [blankFrom_block hbraces]
      exact .byte (by decide) rfl (hblanks.append (.byte (by decide) rfl ih))

/-- A block behind a balanced text: the lines before it, the statement in front of its brace and the
lines behind it, without its content. -/
lemma bodyFields_block {sep : UInt8 → Bool} {pre : Text} (hpre : Nested .grouping sep pre)
    (post : Text) :
    ∃ fields, ∀ c, Balanced .braces c → bodyFields (pre ++ blockText c ++ post) = fields := by
  obtain ⟨parts, last, hparts, hlast, hcut⟩ :=
    exists_segments_append (by decide) (balanced_blankFrom hpre) isLineEnd
  have hkept : Nested .parens isLineEnd (keptFrom [] parts) :=
    nested_keptFrom (by decide) (by decide) hparts .nil
  refine ⟨propertiesFrom [] parts ++
    ((property? (keptFrom [] parts ++ (trimStart last ++ [ascii '\x7b']))).toList ++
      propertiesFrom [] (segments .parens isLineEnd {} (blankFrom {} post)).tail), fun c hc => ?_⟩
  have hblank : blankFrom {} (pre ++ blockText c ++ post) =
      blankFrom {} pre ++ ascii '\x7b' :: (blanks c ++ ascii '\x7d' :: blankFrom {} post) := by
    have htext : pre ++ blockText c ++ post =
        pre ++ ascii '\x7b' :: (c ++ ascii '\x7d' :: post) := by
      simp [blockText]
    rw [htext, blankFrom_balanced (hpre.part (by decide)), blankFrom_block hc]
  rw [bodyFields_eq_scan, hblank, scan, hcut, segments_byte (by decide) (by decide), ← glue_append,
    propertiesFrom_append, propertiesFrom_block hkept hlast c]

end Kotlin

/-! ### Both dialects -/

/-- What stands in a nested block makes no difference to the fields of a class, whatever follows the
block: any content may be written for it whose braces match.  The text before the block is balanced;
in Java the block must not belong to an initializer. -/
theorem bodyFields_nested_block {pre c c' : Text} (hpre : Balanced .grouping pre)
    (hc : Balanced .braces c) (hc' : Balanced .braces c') (post : Text) :
    (topLevelIndex? (ascii '=') (Java.begun pre) = none →
      Java.bodyFields (pre ++ blockText c ++ post) =
        Java.bodyFields (pre ++ blockText c' ++ post)) ∧
    Kotlin.bodyFields (pre ++ blockText c ++ post) =
      Kotlin.bodyFields (pre ++ blockText c' ++ post) := by
  refine ⟨fun hbegun => ?_, ?_⟩
  · rw [Java.bodyFields_block hpre hbegun hc, Java.bodyFields_block hpre hbegun hc']
  · obtain ⟨fields, hfields⟩ := Kotlin.bodyFields_block hpre post
    rw [hfields c hc, hfields c' hc']

/-- An accessor of one line and one whose block holds an annotation and a property on lines of their
own. -/
theorem bodyFields_nested_block_accessor :
    Balanced .grouping (utf8 "@Id\nval a: Int get()") ∧ Balanced .braces (utf8 " return 1 ") ∧
    Balanced .braces (utf8 "\n@B\nval x: Int = 2\n") ∧
    topLevelIndex? (ascii '=') (Java.begun (utf8 "@Id\nval a: Int get()")) = none ∧
    Java.bodyFields (utf8 "@Id\nval a: Int get()" ++ blockText (utf8 " return 1 ") ++
        utf8 "\nval b: Int\n") =
      Java.bodyFields (utf8 "@Id\nval a: Int get()" ++ blockText (utf8 "\n@B\nval x: Int = 2\n") ++
        utf8 "\nval b: Int\n") ∧
    Kotlin.bodyFields (utf8 "@Id\nval a: Int get()" ++ blockText (utf8 " return 1 ") ++
        utf8 "\nval b: Int\n") =
      Kotlin.bodyFields (utf8 "@Id\nval a: Int get()" ++
        blockText (utf8 "\n@B\nval x: Int = 2\n") ++ utf8 "\nval b: Int\n") := by
  have hpre : Balanced .grouping (utf8 "@Id\nval a: Int get()") := by
    have htext : utf8 "@Id\nval a: Int get()" =
        utf8 "@Id\nval a: Int get" ++ ascii '(' :: ([] ++ [ascii ')']) := by decide
    rw [htext]
    exact (Nested.of_plain (by decide)).append (.enclose (by decide) .nil)
  have hc : Balanced .braces (utf8 " return 1 ") := .of_plain (by decide)
  have hc' : Balanced .braces (utf8 "\n@B\nval x: Int = 2\n") := .of_plain (by decide)
  have hbegun : topLevelIndex? (ascii '=') (Java.begun (utf8 "@Id\nval a: Int get()")) = none := by
    decide
  have hfields := bodyFields_nested_block hpre hc hc' (utf8 "\nval b: Int\n")
  exact ⟨hpre, hc, hc', hbegun, hfields.1 hbegun, hfields.2⟩

end DtoSchema.Declaration
