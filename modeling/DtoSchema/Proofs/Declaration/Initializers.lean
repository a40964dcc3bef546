import DtoSchema.Proofs.Declaration.NestedBlocks

/-!
# Initializers and default values

A field statement of a Java class is a list of declarators, and so are the parameters of a Kotlin
constructor; every declarator may have an initializer.  The lists are cut at commas by a scan for
which angle brackets are brackets too, and the initializer is dropped from every part.  So an
initializer that keeps the scan together (`Initialized.AreListed`) does not show in the fields.

* `Java.statementFields_listText` gives the fields of a statement in terms of its declarators, and
  `Java.bodyFields_listText` those of a body around it.
* `Kotlin.parameterFields_listText` does the same for parameters.
* In the body of a Kotlin class a property is read line by line.  Its initializer may take several
  lines, and those behind the first are read as statements of their own (`Kotlin.IsInitializer`,
  `Kotlin.bodyFields_text`).

`fields_initializers` puts them together, and `fields_comparison` shows that the lists have to be
kept together.
-/

namespace DtoSchema.Declaration

open Text Source

/-! ### Lists of declarators -/

/-- A declarator with its initializer, if it has one. -/
structure Initialized where
  /-- The text up to the equals sign. -/
  declarator : Text
  /-- The text behind the equals sign. -/
  initializer : Option Text

namespace Initialized

/-- The declarator as it is written. -/
def text (d : Initialized) : Text := d.declarator ++ d.initializer.elim [] (ascii '=' :: ·)

/-- Several declarators as they are written, with commas in between. -/
def listText (ds : List Initialized) : Text := join [ascii ','] (ds.map text)

/-- A list keeps the initializers together.  With angle brackets counted as brackets no comma of an
initializer stands at the top level, and every initializer but the last leads back to the top
level. -/
structure AreListed (ds : List Initialized) : Prop where
  uncut : ∀ d ∈ ds, ∀ e ∈ d.initializer, Uncut .all (· == ascii ',') {} e
  closed : ∀ d ∈ ds.dropLast, ∀ e ∈ d.initializer, Place.after .all {} e = {}

/-- Whether a list keeps its initializers together does not depend on the declarators. -/
lemma AreListed.congr {ds ds' : List Initialized} (h : AreListed ds)
    (heq : ds.map initializer = ds'.map initializer) : AreListed ds' where
  uncut d hd := by
    obtain ⟨c, hc, hsame⟩ := List.mem_map.mp (heq ▸ List.mem_map_of_mem hd)
    rw [← hsame]
    exact h.uncut c hc
  closed d hd := by
    have hlast : ds.dropLast.map initializer = ds'.dropLast.map initializer := by
      rw [List.map_dropLast, heq, List.map_dropLast]
    obtain ⟨c, hc, hsame⟩ := List.mem_map.mp (hlast ▸ List.mem_map_of_mem hd)
    rw [← hsame]
    exact h.closed c hc

/-- What an equals sign and an initializer add to the place behind a declarator. -/
lemma after_text {d : Initialized} (hd : Place.after .all {} d.declarator = {})
    (he : ∀ e ∈ d.initializer, Place.after .all {} e = {}) : Place.after .all {} d.text = {} := by
  rw [text, Place.after_append, hd]
  cases hi : d.initializer with
  | none => rfl
  | some e => exact he e hi

/-- An equals sign and an initializer are not cut. -/
lemma uncut_initializer {e : Text} (he : Uncut .all (· == ascii ',') {} e) :
    Uncut .all (· == ascii ',') {} (ascii '=' :: e) := by
  have hequals : Uncut .all (· == ascii ',') {} [ascii '='] := by
    intro u b v heq
    rcases List.append_eq_singleton_iff.mp heq.symm with ⟨rfl, hb⟩ | ⟨-, hb⟩
    · obtain ⟨rfl, -⟩ := List.cons.inj hb
      decide
    · simp at hb
  exact hequals.append he

/-- A list is cut into the parts of its declarators. -/
lemma segments_listText {ds : List Initialized} (hne : ds ≠ []) (h : AreListed ds)
    (hds : ∀ d ∈ ds, Place.after .all {} d.declarator = {}) :
    segments .all (· == ascii ',') {} (listText ds) =
      ds.flatMap fun d => segments .all (· == ascii ',') {} d.text := by
  have hclosed : ∀ t ∈ (ds.map text).dropLast, Place.after .all {} t = {} := by
    intro t ht
    rw [← List.map_dropLast] at ht
    obtain ⟨d, hd, rfl⟩ := List.mem_map.mp ht
    exact after_text (hds d ((List.dropLast_sublist ds).subset hd)) (h.closed d hd)
  rw [listText, segments_join_closed (by decide) (by decide) (by simpa using hne) hclosed,
    List.flatMap_map]

end Initialized

/-! ### Statements of a Java class body -/

namespace Java

/-- The brackets inside of which a semicolon does not end a statement. -/
def enclosing : Brackets := ⟨"(\x7b", ")\x7d"⟩

/-- Behind an equals sign a statement goes on over brackets of every kind. -/
lemma scan_initializer {begun e : Text} (hbegun : (topLevelIndex? (ascii '=') begun).isSome)
    (he : Nested enclosing (· == ascii ';') e) (t : Text) :
    scan begun (e ++ t) = scan (begun ++ e) t := by
  have hplain : ∀ b, enclosing.isPlain b = true →
      isQuote b = false ∧ b ≠ ascii '(' ∧ b ≠ ascii '\x7b' := fun b hb =>
    ⟨isQuote_of_isPlain hb, ne_of_class hb (by decide), ne_of_class hb (by decide)⟩
  have hpairs : enclosing.pairs = [(ascii '(', ascii ')'), (ascii '\x7b', ascii '\x7d')] := by
    decide
  generalize hsep : (fun b : UInt8 => b == ascii ';') = sep at he
  induction he generalizing begun with
  | nil => simp
  | @byte sep b s hb hb' _ ih =>
    subst hsep
    obtain ⟨hquote, hopen, hbrace⟩ := hplain b hb
    have hend : b ≠ ascii ';' := by simpa using hb'
    rw [List.cons_append, scan, bodyPieces_byte hquote hopen hbrace, statementsFrom, if_neg hend,
      ← scan, ih (isSome_topLevelIndex?_append hbegun _) rfl, List.append_assoc,
      List.singleton_append]
  | @literal sep q l s hq hl _ ih =>
    rw [List.cons_append, List.append_assoc, scan, bodyPieces_literal hq hl, statementsFrom, ← scan,
      ih (isSome_topLevelIndex?_append hbegun _) hsep]
    simp
  | @group sep o c i s hp hi _ _ ih =>
    rw [List.cons_append, List.append_assoc, List.cons_append]
    have hp' : (o = ascii '(' ∧ c = ascii ')') ∨ (o = ascii '\x7b' ∧ c = ascii '\x7d') := by
      simpa [hpairs] using hp
    rcases hp' with ⟨rfl, rfl⟩ | ⟨rfl, rfl⟩
    · have hparens : Balanced (.single (ascii '(') (ascii ')')) i := hi.part (by decide)
      rw [scan, bodyPieces_parens (readBalanced?_nested (by decide) hparens _), statementsFrom,
        ← scan, ih (isSome_topLevelIndex?_append hbegun _) hsep]
      simp
    · have hbraces : Balanced .braces i := hi.part (by decide)
      rw [scan, bodyPieces_braces (readBalanced?_nested (by decide) hbraces _), statementsFrom,
        if_pos hbegun, ← scan, ih (isSome_topLevelIndex?_append hbegun _) hsep]
      simp

/-- A part of a statement: its declarator is no end of one, and its initializer encloses its
semicolons. -/
structure IsPart (d : Initialized) : Prop where
  statement : Nested (.single (ascii '(') (ascii ')')) isEnd d.declarator
  equals : Nested .grouping (· == ascii '=') d.declarator
  enclosed : ∀ e ∈ d.initializer, Nested enclosing (· == ascii ';') e

/-- The statement begun so far holds no equals sign at the top level, or it is found. -/
def FindsEquals (begun : Text) : Prop :=
  Nested .grouping (· == ascii '=') begun ∨ (topLevelIndex? (ascii '=') begun).isSome

lemma FindsEquals.append {begun s : Text} (h : FindsEquals begun)
    (hs : Nested .grouping (· == ascii '=') s) : FindsEquals (begun ++ s) :=
  h.imp (·.append hs) (isSome_topLevelIndex?_append · s)

lemma FindsEquals.isSome {begun : Text} (h : FindsEquals begun) :
    (topLevelIndex? (ascii '=') (begun ++ [ascii '='])).isSome := by
  rcases h with h | h
  · rw [topLevelIndex?, topLevelFrom_nested h (d := 0) (by simp)]
    rfl
  · exact isSome_topLevelIndex?_append h _

/-- A part belongs to the statement that was begun. -/
lemma scan_text {d : Initialized} (hd : IsPart d) {begun : Text} (hbegun : FindsEquals begun)
    (t : Text) :
    scan begun (d.text ++ t) = scan (begun ++ d.text) t ∧ FindsEquals (begun ++ d.text) := by
  have hdeclarator := hbegun.append hd.equals
  cases hi : d.initializer with
  | none =>
    have htext : d.text = d.declarator := by simp [Initialized.text, hi]
    rw [htext]
    exact ⟨scan_nested hd.statement begun t, hdeclarator⟩
  | some e =>
    have htext : d.text = d.declarator ++ ascii '=' :: e := by simp [Initialized.text, hi]
    have hequals := hdeclarator.isSome
    refine ⟨?_, Or.inr ?_⟩
    · rw [htext, List.append_assoc, List.cons_append, scan_nested hd.statement,
        scan_byte (by decide) (by decide) (by decide), scan_initializer hequals (hd.enclosed e hi)]
      simp
    · have h := isSome_topLevelIndex?_append hequals e
      rw [htext]
      simpa using h

/-- The parts of a list belong to the statement that was begun. -/
lemma scan_listText {ds : List Initialized} (hds : ∀ d ∈ ds, IsPart d) {begun : Text}
    (hbegun : FindsEquals begun) (t : Text) :
    scan begun (Initialized.listText ds ++ t) = scan (begun ++ Initialized.listText ds) t := by
  induction ds generalizing begun with
  | nil => simp [Initialized.listText, join]
  | cons d ds ih =>
    obtain ⟨hd, hrest⟩ := List.forall_mem_cons.mp hds
    cases ds with
    | nil =>
      have htext : Initialized.listText [d] = d.text := by simp [Initialized.listText, join]
      rw [htext]
      exact (scan_text hd hbegun t).1
    | cons c ds =>
      have htext : Initialized.listText (d :: c :: ds) =
          d.text ++ ascii ',' :: Initialized.listText (c :: ds) := by
        simp [Initialized.listText, join_cons_cons]
      obtain ⟨hscan, hnext⟩ := scan_text hd hbegun
        (ascii ',' :: Initialized.listText (c :: ds) ++ t)
      have hcomma : Nested .grouping (· == ascii '=') [ascii ','] := .of_plain (by decide)
      rw [htext, List.append_assoc, hscan, List.cons_append,
        scan_byte (by decide) (by decide) (by decide), ih hrest (hnext.append hcomma)]
      simp

/-- The fields of a body with a list of declarators as one of its statements. -/
lemma bodyFields_listText {sep : UInt8 → Bool} {pre : Text} (hpre : Nested .grouping sep pre)
    (hbegun : begun pre = []) {ds : List Initialized} (hds : ∀ d ∈ ds, IsPart d) (post : Text) :
    bodyFields (pre ++ Initialized.listText ds ++ ascii ';' :: post) =
      bodyFields pre ++ statementFields (Initialized.listText ds) ++ bodyFields post := by
  have hstatements : statements (pre ++ Initialized.listText ds ++ ascii ';' :: post) =
      statements pre ++ Initialized.listText ds :: statements post := by
    rw [List.append_assoc, statements_append hpre, hbegun, scan_listText hds (Or.inl .nil),
      scan_semicolon]
    rfl
  rw [bodyFields, hstatements, List.flatMap_append, List.flatMap_cons, List.append_assoc]
  rfl

/-! ### Fields of a Java statement -/

/-- A name before a parenthesis stands in front of a place where reading stops, or behind it. -/
lemma hasCall_stops {t : Text} (ht : Stops t) (s : Text) :
    hasCall (s ++ t) = (hasCall s || hasCall t) := by
  have hpart : t.dropWhile isIdentPart = t := by
    cases t with
    | nil => rfl
    | cons b t =>
      have hb : isIdentPart b = false := by simpa using head?_isIdentPart_of_isTail ht.isTail
      simp [hb]
  have hopen := ht.skipGaps_head?_ne
  have hhead : ∀ x : Text, ((skipGaps (x ++ t)).head? == some (ascii '(')) =
      ((skipGaps x).head? == some (ascii '(')) := by
    intro x
    rw [skipGaps_append_eq]
    split
    · next hx => simp [hx, hopen]
    · next hx => rw [List.head?_append_of_ne_nil _ hx]
  induction s with
  | nil => rfl
  | cons b s ih =>
    have hword : (s ++ t).dropWhile isIdentPart = s.dropWhile isIdentPart ++ t := by
      rw [List.dropWhile_append]
      split
      · next h => rw [hpart, List.isEmpty_iff.mp h, List.nil_append]
      · rfl
    have hcall : callAt (b :: (s ++ t)) = callAt (b :: s) := by
      simp only [callAt, hword, hhead]
    rw [List.cons_append, hasCall, hcall, ih, hasCall, Bool.or_assoc]

lemma hasCall_trimEnd (s : Text) : hasCall (trimEnd s) = hasCall s := by
  obtain ⟨w, hw, hspace⟩ := exists_append_space s
  have hopen : ascii '(' ∉ w := hspace.notMem (by decide)
  conv_rhs => rw [hw, hasCall_stops (.of_space hspace), hasCall_of_not_mem hopen, Bool.or_false]

/-- White space behind an initializer goes with it. -/
lemma dropInitializer_space {w : Text} (hw : IsSpace w) (s : Text) :
    dropInitializer (s ++ w) = dropInitializer s := by
  have hequals : ascii '=' ∉ w := hw.notMem (by decide)
  have hindex : topLevelIndex? (ascii '=') (s ++ w) = topLevelIndex? (ascii '=') s := by
    rw [topLevelIndex?, topLevelFrom_append, topLevelFrom_of_not_mem _ hequals, Option.map_none,
      Option.or_none, topLevelIndex?]
  rw [dropInitializer, beforeTopLevel, hindex, dropInitializer, beforeTopLevel]
  cases hcase : topLevelIndex? (ascii '=') s with
  | none => exact trim_append_space hw s
  | some i => simp only [List.take_append_of_le_length (lt_length_of_topLevelFrom hcase).le]

/-- White space at the end of a statement does not show in its declarators. -/
lemma map_dropInitializer_trimEnd (s : Text) :
    (segments .all (· == ascii ',') {} (trimEnd s)).map dropInitializer =
      (segments .all (· == ascii ',') {} s).map dropInitializer := by
  obtain ⟨w, hw, hspace⟩ := exists_append_space s
  obtain ⟨parts, last, hparts, happend⟩ := exists_segments_uncut .all (· == ascii ',') {}
    (trimEnd s)
  have hcomma : ascii ',' ∉ w := hspace.notMem (by decide)
  have hsegments := happend w (uncut_of_notMem hcomma _)
  rw [← hw] at hsegments
  rw [hparts, hsegments]
  simp [dropInitializer_space hspace]

/-- The fields that the first declarator and the further ones give, without their initializers and
behind the annotations of the statement. -/
def declaredFields (marks : Text) (declarators : List Text) : List Field :=
  (declarators.head?.bind typeAndName?).elim [] fun x =>
    let constraints := Constraints.ofJava marks
    let optional := constraints.nullable || isOptionalType x.1
    let field name pairs := Field.declare name (arrayOf x.1 pairs) optional constraints
    field x.2.1 x.2.2 :: (declarators.tail.filterMap nameAndPairs?).map fun y => field y.1 y.2

/-- A statement in terms of the annotations in front of it and of its declarators. -/
lemma statementFields_eq {s marks rest : Text}
    (h : leadingMarks? spaces (· ∈ modifiers) (trimEnd s) = some (marks, rest)) :
    statementFields s =
      if leadingIdent rest ∈ typeWords ∨ hasCall (beforeTopLevel (ascii '=') rest) then []
      else declaredFields marks ((splitTopLevel (ascii ',') rest).map dropInitializer) := by
  simp only [statementFields, h]
  split
  · rfl
  · cases splitTopLevel (ascii ',') rest with
    | nil => rfl
    | cons first more =>
      cases hfirst : typeAndName? (dropInitializer first) with
      | none => simp [declaredFields, hfirst]
      | some x => simp [declaredFields, hfirst, List.filterMap_map]

/-- The list behind the declarator of its first member. -/
def listTail (e : Option Text) (ds : List Initialized) : Text :=
  e.elim [] (ascii '=' :: ·) ++ if ds = [] then [] else ascii ',' :: Initialized.listText ds

lemma listText_cons (u : Text) (e : Option Text) (ds : List Initialized) :
    Initialized.listText (⟨u, e⟩ :: ds) = u ++ listTail e ds := by
  cases ds with
  | nil => simp [Initialized.listText, join, Initialized.text, listTail]
  | cons d ds => simp [Initialized.listText, join_cons_cons, Initialized.text, listTail]

/-- Reading a declarator stops at its initializer, at a comma or at the end of the list. -/
lemma head?_listTail (e : Option Text) (ds : List Initialized) :
    (listTail e ds).head?.all isStop := by
  cases e with
  | some e => simpa [listTail] using (by decide : isStop (ascii '=') = true)
  | none =>
    by_cases hds : ds = []
    · simp [listTail, hds]
    · simpa [listTail, hds] using (by decide : isStop (ascii ',') = true)

/-- The list behind its first declarator, up to the first equals sign. -/
lemma exists_listTail (e : Option Text) {ds : List Initialized}
    (hds : ∀ d ∈ ds, Nested .grouping (· == ascii '=') d.declarator ∧ ascii '(' ∉ d.declarator) :
    ∃ c r, listTail e ds = c ++ r ∧ Nested .grouping (· == ascii '=') c ∧ ascii '(' ∉ c ∧ Stops c ∧
      (r = [] ∨ ∃ x, r = ascii '=' :: x) := by
  cases e with
  | some e => exact ⟨[], listTail (some e) ds, rfl, .nil, by simp, .nil, Or.inr ⟨_, rfl⟩⟩
  | none =>
    induction ds with
    | nil => exact ⟨[], [], rfl, .nil, by simp, .nil, Or.inl rfl⟩
    | cons d ds ih =>
      obtain ⟨u, e⟩ := d
      obtain ⟨⟨hu, hopen⟩, hrest⟩ := List.forall_mem_cons.mp hds
      have hlist : listTail none (⟨u, e⟩ :: ds) = ascii ',' :: (u ++ listTail e ds) := by
        rw [← listText_cons]
        simp [listTail]
      have hcomma : Nested .grouping (· == ascii '=') [ascii ','] := .of_plain (by decide)
      obtain ⟨c, r, hc, hnested, hmem, hr⟩ : ∃ c r, listTail e ds = c ++ r ∧
          Nested .grouping (· == ascii '=') c ∧ ascii '(' ∉ c ∧
            (r = [] ∨ ∃ x, r = ascii '=' :: x) := by
        cases e with
        | some e => exact ⟨[], listTail (some e) ds, rfl, .nil, by simp, Or.inr ⟨_, rfl⟩⟩
        | none =>
          obtain ⟨c, r, hc, hnested, hmem, -, hr⟩ := ih hrest
          exact ⟨c, r, hc, hnested, hmem, hr⟩
      refine ⟨ascii ',' :: (u ++ c), r, by simp [hlist, hc], hcomma.append (hu.append hnested), ?_,
        .cons (by decide) _, hr⟩
      have hne : ascii '(' ≠ ascii ',' := by decide
      simp [hne, hopen, hmem]

/-- The start of a statement up to its first initializer or comma: annotations and modifiers, then
the type and the first name, in which no bracket is left open and no comma stands outside of
brackets. -/
structure IsHead (head marks first : Text) : Prop where
  statement : Nested (.single (ascii '(') (ascii ')')) isEnd head
  equals : Nested .grouping (· == ascii '=') head
  reads : leadingMarks? spaces (· ∈ modifiers) head = some (marks, first)
  visible : trim first ≠ []
  uncut : Uncut .all (· == ascii ',') {} first
  closed : Place.after .all {} first = {}

/-- The bytes of a further declarator: no quotes, no brackets but square ones, and nothing that ends
a declarator. -/
def isDeclaratorByte (b : UInt8) : Bool :=
  (Brackets.all.isPlain b || b ∈ utf8 "[]") && b ∉ utf8 ",;="

/-- A further declarator: a name with its bracket pairs. -/
structure IsDeclarator (d : Text) : Prop where
  bytes : d.all isDeclaratorByte
  balanced : Balanced .all d
  visible : trim d ≠ []

namespace IsDeclarator

variable {d : Text} (h : IsDeclarator d)
include h

lemma notMem {c : UInt8} (hc : isDeclaratorByte c = false) : c ∉ d := by
  intro hmem
  simp [List.all_eq_true.mp h.bytes c hmem] at hc

lemma ne_of_mem {b c : UInt8} (hb : b ∈ d) (hc : isDeclaratorByte c = false) : b ≠ c := by
  rintro rfl
  exact h.notMem hc hb

lemma equals : Nested .grouping (· == ascii '=') d :=
  (h.balanced.part (by decide)).of_forall_mem fun _ hb =>
    beq_eq_false_iff_ne.mpr (h.ne_of_mem hb (by decide))

lemma statement : Nested (.single (ascii '(') (ascii ')')) isEnd d :=
  .of_class [ascii ';', ascii '\x7b', ascii '\x7d'] (by simp [isEnd, isBrace]) (by decide)
    (by decide) h.bytes

lemma uncut : Uncut .all (· == ascii ',') {} d := uncut_of_notMem (h.notMem (by decide)) _

lemma closed : Place.after .all {} d = {} := Place.after_nested (by decide) h.balanced

end IsDeclarator

/-- The annotations of a statement are those of its start. -/
lemma IsHead.leadingMarks?_trimEnd {head marks first : Text} (h : IsHead head marks first)
    {t : Text} (ht : t.head?.all isStop) :
    leadingMarks? spaces (· ∈ modifiers) (trimEnd (head ++ t)) =
      some (marks, trimEnd (first ++ t)) := by
  obtain ⟨w, hw, hspace⟩ := exists_append_space head
  have happend : ∀ t, isTail t →
      leadingMarks? spaces (· ∈ modifiers) (trimEnd head ++ t) =
        (leadingMarks? spaces (· ∈ modifiers) (trimEnd head)).bind fun x =>
          if x.2 = [] then (leadingMarks? spaces (· ∈ modifiers) t).map fun y => (x.1 ++ y.1, y.2)
          else some (x.1, x.2 ++ t) := fun t ht =>
    leadingMarks?_append (by decide) areCharacters_spaces areMarkBytes_spaces (by decide)
      (nested_trimEnd (by decide) h.equals) ht
  have hfirst := h.reads
  rw [hw, happend w (Stops.of_space hspace).isTail] at hfirst
  obtain ⟨⟨marks', rest⟩, hrest, hreads⟩ := Option.bind_eq_some_iff.mp hfirst
  -- the first declarator is seen, so that the annotations end before it
  have hne : rest ≠ [] := by
    rintro rfl
    rw [if_pos rfl, (Stops.of_space hspace).leadingMarks? (by decide), Option.map_some,
      Option.some.injEq, Prod.mk.injEq] at hreads
    exact h.visible (by rw [← hreads.2, hspace.trimStart_eq_nil]; rfl)
  simp only [hne, if_false, Option.some.injEq, Prod.mk.injEq] at hreads
  obtain ⟨rfl, rfl⟩ := hreads
  cases t with
  | nil =>
    have hself : trimEnd rest = rest :=
      trimEnd_of_isSuffix (trimEnd_trimEnd head) (isSuffix_of_leadingMarks? hrest)
    rw [List.append_nil, List.append_nil, trimEnd_space hspace, hself, hrest]
  | cons k x =>
    have hk : isStop k := by simpa using ht
    have hink := (of_isStop hk).1
    rw [trimEnd_append_ink hink, trimEnd_append_ink hink]
    have hstops : Stops (w ++ k :: trimEnd x) := .space_append hspace (.cons hk _)
    conv_lhs => rw [hw, List.append_assoc]
    rw [happend _ hstops.isTail, hrest, Option.bind_some, if_neg hne, List.append_assoc]

/-- A declarator without its initializer. -/
lemma dropInitializer_text {d : Initialized}
    (hd : Nested .grouping (· == ascii '=') d.declarator) :
    dropInitializer d.text = trim d.declarator := by
  rw [dropInitializer, Initialized.text]
  cases d.initializer with
  | none => rw [Option.elim_none, List.append_nil, beforeTopLevel_nested hd]
  | some e => rw [Option.elim_some, beforeTopLevel_nested_append hd (by decide)]

/-- A list of declarators is cut at its commas, and the initializers are dropped. -/
lemma map_dropInitializer_listText {ds : List Initialized} (hne : ds ≠ [])
    (hlist : Initialized.AreListed ds)
    (hds : ∀ d ∈ ds, Nested .grouping (· == ascii '=') d.declarator ∧ trim d.declarator ≠ [] ∧
      Uncut .all (· == ascii ',') {} d.declarator ∧ Place.after .all {} d.declarator = {}) :
    (splitTopLevel (ascii ',') (trimEnd (Initialized.listText ds))).map dropInitializer =
      ds.map fun d => trim d.declarator := by
  have hwhole : ∀ d ∈ ds, segments .all (· == ascii ',') {} d.text = [d.text] := by
    intro d hd
    obtain ⟨-, -, huncut, hclosed⟩ := hds d hd
    have htext : Uncut .all (· == ascii ',') {} d.text := by
      cases hi : d.initializer with
      | none => simpa [Initialized.text, hi] using huncut
      | some e =>
        have he := Initialized.uncut_initializer (hlist.uncut d hd e hi)
        simpa [Initialized.text, hi] using huncut.append (by rwa [hclosed])
    exact uncut_iff_segments.mp htext
  have hmap : (segments .all (· == ascii ',') {} (trimEnd (Initialized.listText ds))).map
      dropInitializer = ds.map fun d => trim d.declarator := by
    rw [map_dropInitializer_trimEnd,
      Initialized.segments_listText hne hlist fun d hd => (hds d hd).2.2.2,
      List.flatMap_congr hwhole, ← List.map_eq_flatMap, List.map_map]
    exact List.map_congr_left fun d hd => dropInitializer_text (hds d hd).1
  -- no declarator is blank, so that the last part is not dropped
  have hlast : (segments .all (· == ascii ',') {} (trimEnd (Initialized.listText ds))).getLast? ≠
      some [] := by
    intro hnil
    have h := congrArg List.getLast? hmap
    rw [List.getLast?_map, List.getLast?_map, hnil, List.getLast?_eq_some_getLast hne] at h
    have hempty : dropInitializer [] = [] := by decide
    rw [Option.map_some, Option.map_some, hempty, Option.some.injEq] at h
    exact (hds _ (List.getLast_mem hne)).2.1 h.symm
  rw [splitTopLevel, dropEmptyEnd, if_neg hlast, hmap]

/-- The fields of a statement are those of its declarators without their initializers. -/
lemma statementFields_listText {d : Initialized} {marks first : Text}
    (h : IsHead d.declarator marks first) {ds : List Initialized}
    (hds : ∀ d ∈ ds, IsDeclarator d.declarator) (hlist : Initialized.AreListed (d :: ds)) :
    statementFields (Initialized.listText (d :: ds)) =
      if leadingIdent first ∈ typeWords ∨ hasCall first then []
      else declaredFields marks (trim first :: ds.map fun d => trim d.declarator) := by
  obtain ⟨head, e⟩ := d
  have hreads := h.leadingMarks?_trimEnd (head?_listTail e ds)
  rw [← listText_cons] at hreads
  have hfirst : Nested .grouping (· == ascii '=') first :=
    nested_of_leadingMarks? (by decide) areCharacters_spaces areMarkBytes_spaces (by decide)
      h.equals h.reads
  -- the word and the call are sought in front of the first initializer
  have hword : leadingIdent (trimEnd (first ++ listTail e ds)) = leadingIdent first := by
    obtain ⟨w, hw, hspace⟩ := exists_append_space (first ++ listTail e ds)
    have hstops : Stops (listTail e ds) := ⟨[], _, rfl, .nil, head?_listTail e ds⟩
    rw [← (Stops.of_space hspace).leadingIdent_append, ← hw, hstops.leadingIdent_append]
  have hcall : hasCall (beforeTopLevel (ascii '=') (trimEnd (first ++ listTail e ds))) =
      hasCall first := by
    obtain ⟨c, r, hc, hnested, hopen, hstops, hr⟩ :=
      exists_listTail e fun d hd => ⟨(hds d hd).equals, (hds d hd).notMem (by decide)⟩
    have hfront : hasCall (first ++ c) = hasCall first := by
      rw [hasCall_stops hstops, hasCall_of_not_mem hopen, Bool.or_false]
    rw [hc, ← List.append_assoc]
    rcases hr with rfl | ⟨x, rfl⟩
    · rw [List.append_nil,
        beforeTopLevel_nested (nested_trimEnd (by decide) (hfirst.append hnested)),
        hasCall_trimEnd, hfront]
    · rw [trimEnd_append_ink (by decide), beforeTopLevel_nested_append (hfirst.append hnested)
        (by decide), hfront]
  have hnames : (splitTopLevel (ascii ',') (trimEnd (first ++ listTail e ds))).map dropInitializer =
      trim first :: ds.map fun d => trim d.declarator := by
    rw [← listText_cons]
    refine map_dropInitializer_listText (by simp) (hlist.congr rfl)
      (List.forall_mem_cons.mpr ⟨⟨hfirst, h.visible, h.uncut, h.closed⟩, fun d hd => ?_⟩)
    have hd' := hds d hd
    exact ⟨hd'.equals, hd'.visible, hd'.uncut, hd'.closed⟩
  rw [statementFields_eq hreads, hword, hcall, hnames]

/-- A field statement: the start of one with its initializer, and further declarators with theirs.
Every semicolon of an initializer stands in parentheses or braces. -/
structure IsStatement (ds : List Initialized) : Prop where
  head : ∃ d ∈ ds.head?, ∃ marks first, IsHead d.declarator marks first
  more : ∀ d ∈ ds.tail, IsDeclarator d.declarator
  listed : Initialized.AreListed ds
  enclosed : ∀ d ∈ ds, ∀ e ∈ d.initializer, Nested enclosing (· == ascii ';') e

lemma IsStatement.isPart {ds : List Initialized} (h : IsStatement ds) {d : Initialized}
    (hd : d ∈ ds) : IsPart d := by
  obtain ⟨c, hc, marks, first, hhead⟩ := h.head
  obtain ⟨cs, rfl⟩ := List.head?_eq_some_iff.mp hc
  rcases List.mem_cons.mp hd with rfl | hmem
  · exact ⟨hhead.statement, hhead.equals, h.enclosed _ hd⟩
  · exact ⟨(h.more d hmem).statement, (h.more d hmem).equals, h.enclosed d hd⟩

/-- The fields of a body with a field statement depend on the declarators of the statement, not on
their initializers. -/
lemma bodyFields_statement {sep : UInt8 → Bool} {pre : Text} (hpre : Nested .grouping sep pre)
    (hbegun : begun pre = []) {ds ds' : List Initialized} (h : IsStatement ds)
    (h' : IsStatement ds')
    (hsame : ds.map Initialized.declarator = ds'.map Initialized.declarator) (post : Text) :
    bodyFields (pre ++ Initialized.listText ds ++ ascii ';' :: post) =
      bodyFields (pre ++ Initialized.listText ds' ++ ascii ';' :: post) := by
  rw [bodyFields_listText hpre hbegun fun _ => h.isPart,
    bodyFields_listText hpre hbegun fun _ => h'.isPart]
  obtain ⟨d, hd, marks, first, hhead⟩ := h.head
  obtain ⟨d', hd', -⟩ := h'.head
  obtain ⟨es, rfl⟩ := List.head?_eq_some_iff.mp hd
  obtain ⟨es', rfl⟩ := List.head?_eq_some_iff.mp hd'
  rw [List.map_cons, List.map_cons, List.cons.injEq] at hsame
  have hhead' : IsHead d'.declarator marks first := hsame.1 ▸ hhead
  have hnames : (es.map fun d => trim d.declarator) = es'.map fun d => trim d.declarator := by
    simpa [Function.comp_def] using congrArg (List.map trim) hsame.2
  have hmore : ∀ d ∈ es, IsDeclarator d.declarator := h.more
  have hmore' : ∀ d ∈ es', IsDeclarator d.declarator := h'.more
  rw [statementFields_listText hhead hmore h.listed,
    statementFields_listText hhead' hmore' h'.listed, hnames]

end Java

/-! ### Parameters of a Kotlin constructor -/

namespace Kotlin

/-- The text of a parameter up to its default value: a list leads back to the top level behind it,
and of its parts the last one holds no equals sign and does not end like a delegate.  Mostly there
is only one part; an arrow in a type counts as a closing bracket, so there may be more. -/
structure IsParameter (u : Text) : Prop where
  closed : Place.after .all {} u = {}
  last : ∀ part, (segments .all (· == ascii ',') {} u).getLast? = some part →
    Nested .grouping (· == ascii '=') part ∧ ¬ EndsInBy part

/-- A default value makes no difference to the parts of a parameter. -/
lemma filterMap_segments_text {d : Initialized} (hd : IsParameter d.declarator)
    (he : ∀ e ∈ d.initializer, Uncut .all (· == ascii ',') {} e) :
    (segments .all (· == ascii ',') {} d.text).filterMap property? =
      (segments .all (· == ascii ',') {} d.declarator).filterMap property? := by
  cases hi : d.initializer with
  | none => simp [Initialized.text, hi]
  | some e =>
    obtain ⟨parts, last, hparts, hrest⟩ :=
      exists_segments_uncut .all (· == ascii ',') {} d.declarator
    obtain ⟨hnested, hby⟩ := hd.last last (by simp [hparts])
    have huncut : Uncut .all (· == ascii ',') (Place.after .all {} d.declarator)
        (ascii '=' :: e) := by
      rw [hd.closed]
      exact Initialized.uncut_initializer (he e hi)
    have hproperty : property? (last ++ ascii '=' :: e) = property? last := by
      rw [← propertyWith?_nil, propertyWith?_initializer hnested hby, propertyWith?_nil]
    rw [Initialized.text, hi, Option.elim_some, hrest _ huncut, hparts]
    simp only [List.filterMap_append, List.filterMap_cons, List.filterMap_nil, hproperty]

/-- The properties among parameters are those of the parameters without default values. -/
lemma parameterFields_listText {ps : List Initialized} (h : Initialized.AreListed ps)
    (hps : ∀ p ∈ ps, IsParameter p.declarator) :
    parameterFields (Initialized.listText ps) =
      (ps.map Initialized.declarator).flatMap fun u =>
        (segments .all (· == ascii ',') {} u).filterMap property? := by
  have hempty : property? [] = none := by decide
  have hend : ∀ parts, (dropEmptyEnd parts).filterMap property? = parts.filterMap property? := by
    intro parts
    unfold dropEmptyEnd
    split
    · next hlast =>
      obtain ⟨parts, rfl⟩ := List.getLast?_eq_some_iff.mp hlast
      simp [hempty]
    · rfl
  by_cases hne : ps = []
  · subst hne
    decide
  · rw [parameterFields, splitTopLevel, hend,
      Initialized.segments_listText hne h fun p hp => (hps p hp).closed, List.filterMap_flatMap,
      List.flatMap_map]
    refine List.flatMap_congr fun p hp => ?_
    exact filterMap_segments_text (hps p hp) (h.uncut p hp)

/-! ### Properties of a Kotlin class body -/

/-- Annotations that wait for their property. -/
structure IsKept (pending : Text) : Prop where
  ends : pending = [] ∨ ∃ a, pending = a ++ [ascii ' ']
  marks : ∃ m, ∀ s, (skipGaps s).head? ≠ some (ascii '(') →
    leadingMarks? spaces (· ∈ modifiers) (pending ++ s) =
      (leadingMarks? spaces (· ∈ modifiers) s).map fun x => (m ++ x.1, x.2)

lemma isKept_nil : IsKept [] where
  ends := Or.inl rfl
  marks := ⟨[], fun _ _ => Option.map_id'.symm⟩

/-- A text of annotations alone is read to its end. -/
lemma exists_leadingMarks? {brackets : Brackets} {sep : UInt8 → Bool} (hB : suitsMarks brackets)
    {s : Text} (hs : Nested brackets sep s) (h : Mark.afterLeading s = []) :
    ∃ m, leadingMarks? spaces (· ∈ modifiers) s = some (m, []) := by
  induction hn : s.length using Nat.strong_induction_on generalizing s with
  | _ n ih =>
    by_cases hne : s = []
    · exact ⟨[], by rw [hne]; rfl⟩
    by_cases hgap : s.head?.any isGap
    · obtain ⟨b, r, rfl⟩ := List.exists_cons_of_ne_nil hne
      have hb : isGap b := by simpa using hgap
      have hrest : Mark.afterLeading r = [] := by
        rw [← h, Mark.afterLeading, Mark.afterLeading, Mark.afterLeadingFrom, if_pos hb]
      have hbyte := isPlain_of_isMarkByte hB (isMarkByte_of_isGap hb)
      obtain ⟨m, hm⟩ := ih r.length (by simp [← hn]) (hs.of_cons hbyte) hrest rfl
      exact ⟨m, (leadingMarks?_blank isCode_spaces (mem_spaces_of_isGap hb) (by simp) r).trans hm⟩
    · rw [Bool.not_eq_true] at hgap
      rcases read?_cases hB hs hne with hread | ⟨a, r, rfl, ha, hr, hread⟩
      · have hnone := hread [] rfl
        rw [List.append_nil] at hnone
        exact absurd (afterLeading_stop hgap hnone ▸ h) hne
      · have hmark := hread [] rfl
        rw [List.append_nil] at hmark
        have hat : (a.text ++ r).head? = some (ascii '@') := by
          cases hcase : a.text ++ r with
          | nil => exact absurd hcase hne
          | cons b t =>
            by_contra hb
            rw [hcase, read?_eq_none (by simpa using hb)] at hmark
            simp at hmark
        have hwidth : leadingWidth spaces (a.text ++ r) = 0 := by
          obtain ⟨t, ht⟩ : ∃ t, a.text ++ r = ascii '@' :: t := by
            cases hcase : a.text ++ r with
            | nil => exact absurd hcase hne
            | cons b t => exact ⟨t, by simpa [hcase] using hat⟩
          rw [ht, leadingWidth_ink areBlank_spaces (by decide)]
        have hpos := List.length_pos_iff.mpr ha
        simp only [List.length_append] at hn
        obtain ⟨m, hm⟩ := ih r.length (by omega) hr (afterLeading_mark hmark ha hgap ▸ h) rfl
        exact ⟨_, (leadingMarks?_mark hwidth ha hat hmark).trans (by rw [hm]; rfl)⟩

/-- A line of annotations waits behind those that wait already. -/
lemma IsKept.append {brackets : Brackets} {sep : UInt8 → Bool} (hB : suitsMarks brackets)
    {pending s : Text} (hp : IsKept pending) (hs : Nested brackets sep s)
    (h : Mark.afterLeading s = []) : IsKept (pending ++ s ++ " ") := by
  obtain ⟨m, hm⟩ := hp.marks
  obtain ⟨m', hm'⟩ := exists_leadingMarks? hB hs h
  refine ⟨Or.inr ⟨pending ++ s, by rw [utf8_space]⟩, m ++ m', fun r hr => ?_⟩
  have hgap : isGap (ascii ' ') := by decide
  have hskip : skipGaps (ascii ' ' :: r) = skipGaps r := List.dropWhile_cons_of_pos hgap
  have htail : isTail (ascii ' ' :: r) := by
    have hhead : (!isNamePart (ascii ' ') && ascii ' ' != ascii ':' &&
      !isContinuation (ascii ' ')) = true := by decide
    simp only [isTail, List.head?_cons, Option.all_some, hhead, hskip, Bool.true_and, bne_iff_ne]
    exact hr
  have hopen : (skipGaps (s ++ ascii ' ' :: r)).head? ≠ some (ascii '(') := by
    rw [skipGaps_append_eq, hskip]
    split
    · exact hr
    · next hne =>
      rw [List.head?_append_of_ne_nil _ hne]
      rw [← afterLeading_skipGaps] at h
      cases hcase : skipGaps s with
      | nil => exact absurd hcase hne
      | cons b t =>
        rintro heq
        obtain rfl : b = ascii '(' := by simpa using heq
        rw [hcase, afterLeading_eq_self (by decide) (by decide)] at h
        simp at h
  have htext : pending ++ s ++ utf8 " " ++ r = pending ++ (s ++ ascii ' ' :: r) := by
    simp [utf8_space]
  have hblank : leadingMarks? spaces (· ∈ modifiers) (ascii ' ' :: r) =
      leadingMarks? spaces (· ∈ modifiers) r :=
    leadingMarks?_blank isCode_spaces (mem_spaces_of_isGap hgap) (by simp) r
  rw [htext, hm _ hopen, leadingMarks?_append hB areCharacters_spaces areMarkBytes_spaces
    (by decide) hs htail, hm', Option.bind_some, if_pos rfl, hblank, Option.map_map]
  simp [Function.comp_def]

lemma isKept_keptFrom {brackets : Brackets} {sep : UInt8 → Bool} (hB : suitsMarks brackets)
    {ss : List Text} (hss : ∀ s ∈ ss, Nested brackets sep s) {pending : Text}
    (hp : IsKept pending) : IsKept (keptFrom pending ss) := by
  induction ss generalizing pending with
  | nil => exact hp
  | cons s ss ih =>
    obtain ⟨hs, hrest⟩ := List.forall_mem_cons.mp hss
    rw [keptFrom]
    split
    · exact ih hrest hp
    · split
      · next hempty =>
        exact ih hrest (hp.append hB (nested_trim hB hs) (List.isEmpty_iff.mp hempty))
      · exact ih hrest isKept_nil

/-- A statement declares its property with the annotations that wait. -/
lemma IsKept.exists_propertyWith? {pending : Text} (hp : IsKept pending) :
    ∃ m, ∀ s, s ≠ [] → trimEnd s = s → (skipGaps s).head? ≠ some (ascii '(') →
      property? (pending ++ s) = propertyWith? m s := by
  obtain ⟨m, hm⟩ := hp.marks
  refine ⟨m, fun s hne htrim hopen => ?_⟩
  have hwhole : trimEnd (pending ++ s) = pending ++ s := by
    rcases hp.ends with rfl | ⟨a, rfl⟩
    · exact htrim
    · rw [List.append_assoc, List.singleton_append, trimEnd_append_gap (by decide)
        (by rwa [htrim]), htrim]
  rw [property?_eq, hwhole, hm s hopen, Option.bind_map, propertyWith?, htrim]
  rfl

/-- The line of a property up to its initializer. -/
structure IsProperty (u : Text) : Prop where
  nested : Nested .grouping (· == ascii '=') u
  line : Nested .parens isLineEnd u
  flat : Nested ⟨[], []⟩ isBrace u
  delegate : ¬ EndsInBy u
  declares : (property? (trim u)).isSome

/-- The line is blank, or it goes on behind its annotations, and not with a property. -/
def IsQuiet (l : Text) : Prop :=
  trim l = [] ∨ Mark.afterLeading (trim l) ≠ [] ∧
    ∀ x ∈ leadingMarks? spaces (· ∈ modifiers) (trim l),
      leadingIdent x.2 ≠ "val" ∧ leadingIdent x.2 ≠ "var"

instance (l : Text) : Decidable (IsQuiet l) := inferInstanceAs (Decidable (_ ∨ _ ∧ _))

/-- The text is balanced, and of the lines that it takes at the top level all but the first are
quiet. -/
structure IsInitializer (e : Text) : Prop where
  balanced : Balanced .grouping e
  quiet : ∀ l ∈ (segments .parens isLineEnd {} (blankFrom {} e)).tail, IsQuiet l

/-- Quiet lines declare nothing. -/
lemma propertiesFrom_quiet {ls : List Text} (h : ∀ l ∈ ls, IsQuiet l) (ss : List Text) :
    propertiesFrom [] (ls ++ ss) = propertiesFrom [] ss := by
  induction ls with
  | nil => rfl
  | cons l ls ih =>
    obtain ⟨hl, hls⟩ := List.forall_mem_cons.mp h
    rw [List.cons_append, propertiesFrom, ih hls]
    rcases hl with hempty | ⟨hafter, hword⟩
    · simp [hempty]
    · have hproperty : property? (trim l) = none := by
        have htrim : trimEnd (trim l) = trim l := trimEnd_trimEnd (trimStart l)
        rw [property?_eq, htrim]
        cases hmarks : leadingMarks? spaces (· ∈ modifiers) (trim l) with
        | none => rfl
        | some x =>
          obtain ⟨hval, hvar⟩ := hword x hmarks
          simp [typed?, hval, hvar]
      simp [hafter, hproperty]

lemma isSome_property?_cases {s : Text} (h : (property? s).isSome) (htrim : trimEnd s = s) :
    s ≠ [] ∧ s.head? ≠ some (ascii '(') := by
  refine ⟨?_, fun hopen => ?_⟩
  · rintro rfl
    exact absurd h (by decide)
  · obtain ⟨r, rfl⟩ : ∃ r, s = ascii '(' :: r := by
      cases s with
      | nil => simp at hopen
      | cons b r => exact ⟨r, by simpa using hopen⟩
    have hident : identAt (ascii '(' :: r) = [] := identAt_eq_nil (by decide) r
    have hgap : isGap (ascii '(') = false := by decide
    have hmarks : leadingMarks? spaces (· ∈ modifiers) (ascii '(' :: r) =
        some ([], ascii '(' :: r) :=
      leadingMarks?_stop areBlank_spaces (by decide) (by decide) (by rw [hident]; decide)
    have hword : leadingIdent (ascii '(' :: r) = [] := by
      simp [leadingIdent, skipGaps, hgap, hident]
    have hnone : typed? (ascii '(' :: r) = none := by
      have hval : ([] : Text) ≠ utf8 "val" ∧ ([] : Text) ≠ utf8 "var" := by decide
      simp [typed?, hword, hval]
    rw [property?_eq, htrim, hmarks, Option.bind_some, hnone] at h
    simp at h

/-- The line of a property declares it. -/
lemma propertiesFrom_line {u : Text} (hu : IsProperty u) (pending : Text) (ss : List Text) :
    propertiesFrom pending (u :: ss) =
      (property? (pending ++ trim u)).toList ++ propertiesFrom [] ss := by
  have hB : suitsMarks .parens := by decide
  have hidem : trimEnd (trim u) = trim u := trimEnd_trimEnd (trimStart u)
  have hne := (isSome_property?_cases hu.declares hidem).1
  have hafter : Mark.afterLeading (trim u) ≠ [] := by
    intro hempty
    obtain ⟨m, hm⟩ := exists_leadingMarks? hB (nested_trim hB hu.line) hempty
    have hnone : typed? [] = none := by decide
    have hdeclares := hu.declares
    rw [property?_eq, hidem, hm, Option.bind_some, hnone] at hdeclares
    simp at hdeclares
  rw [propertiesFrom]
  simp [hne, hafter]

/-- The line of a property with an initializer declares the property without it. -/
lemma propertiesFrom_initializer {pending u : Text} (hp : IsKept pending) (hu : IsProperty u)
    (x : Text) (ss : List Text) :
    propertiesFrom pending ((u ++ ascii '=' :: x) :: ss) =
      (property? (pending ++ trim u)).toList ++ propertiesFrom [] ss := by
  have hB : suitsMarks .parens := by decide
  have hink : isInk (ascii '=') := by decide
  have htrim := trim_append_ink hink u x
  have hidem : trimEnd (trim u) = trim u := trimEnd_trimEnd (trimStart u)
  obtain ⟨hne, hopen⟩ := isSome_property?_cases hu.declares hidem
  have hhead : (trim u).head? = (trimStart u).head? := head?_trimEnd hne
  have hstart : trimStart u ≠ [] := by
    rintro hnil
    exact hne (by rw [trim, hnil]; rfl)
  have hby : ¬ EndsInBy (trimStart u) := by
    obtain ⟨w, hw, -⟩ := exists_space_append u
    rintro ⟨a, g, c, v, heq, hg⟩
    exact hu.delegate ⟨w ++ a, g, c, v, by rw [List.append_assoc, ← heq, ← hw], hg⟩
  -- the line starts like the property, with and without the initializer
  have hskip : ∀ s : Text, s.head? = (trimStart u).head? →
      (skipGaps s).head? ≠ some (ascii '(') := by
    intro s hs
    rw [skipGaps_eq_self (by rw [hs, head?_trimStart]), hs, ← hhead]
    exact hopen
  obtain ⟨m, hm⟩ := hp.exists_propertyWith?
  have hbare : property? (pending ++ trim u) = propertyWith? m (trimStart u) := by
    rw [hm _ hne hidem (hskip _ hhead), trim, propertyWith?_trimEnd]
  have hvalue : property? (pending ++ (trimStart u ++ ascii '=' :: trimEnd x)) =
      propertyWith? m (trimStart u) := by
    rw [hm _ (by simp) (by rw [trimEnd_append_ink hink, trimEnd_trimEnd])
      (hskip _ (List.head?_append_of_ne_nil _ hstart)),
      propertyWith?_initializer (nested_trimStart (by decide) hu.nested) hby]
  have hafter : Mark.afterLeading (trimStart u ++ ascii '=' :: trimEnd x) ≠ [] := by
    rw [afterLeading_append hB (nested_trimStart hB hu.line) (Stops.cons (by decide) _).isTail]
    split
    · rw [afterLeading_eq_self (by decide) (by decide)]
      simp
    · simp
  rw [propertiesFrom, hbare, ← hvalue]
  simp [htrim, hafter]

lemma isPlain_of_isLineEnd {b : UInt8} (hb : isLineEnd b) : Brackets.grouping.isPlain b := by
  simp only [isLineEnd, Bool.or_eq_true, beq_iff_eq] at hb
  rcases hb with rfl | rfl <;> decide

/-- The statements behind a text that ends a line. -/
lemma exists_lines {pre : Text} (hpre : Balanced .grouping pre)
    (hline : pre.getLast?.all isLineEnd) :
    ∃ lines, (∀ l ∈ lines, Nested .parens isLineEnd l) ∧
      ∀ t, segments .parens isLineEnd {} (blankFrom {} pre ++ t) =
        lines ++ segments .parens isLineEnd {} t := by
  rcases List.eq_nil_or_concat pre with rfl | ⟨pre, b, rfl⟩
  · exact ⟨[], by simp, fun _ => rfl⟩
  · rw [List.concat_eq_append] at hpre hline ⊢
    have hb : isLineEnd b := by simpa using hline
    have hplain := isPlain_of_isLineEnd hb
    have hparens : Brackets.parens.isPlain b := Brackets.isPlain_of_isPartOf (by decide) hplain
    have hpre' : Balanced .grouping pre := hpre.of_append (by simp [hplain])
    obtain ⟨parts, last, hparts, hlast, hcut⟩ :=
      exists_segments_append (by decide) (balanced_blankFrom hpre') isLineEnd
    refine ⟨parts ++ [last], ?_, fun t => ?_⟩
    · simpa [or_imp, forall_and] using ⟨hparts, hlast⟩
    · have hend : Place.cutsAt .parens isLineEnd {} b := by
        simp [Place.cutsAt, Place.isTop, hparens, hb]
      have hblank : blankFrom {} [b] = [b] := by rw [blankFrom, blanked_outside rfl]; rfl
      rw [blankFrom_balanced (hpre'.part (by decide)), hblank, List.append_assoc,
        List.singleton_append, hcut, segments_cut hend, glue_cons, List.append_nil,
        List.append_assoc, List.singleton_append]

/-- An initializer makes no difference to the properties that a class body declares. -/
lemma bodyFields_initializer {pre u e : Text} {b : UInt8} (hpre : Balanced .grouping pre)
    (hline : pre.getLast?.all isLineEnd) (hu : IsProperty u) (he : IsInitializer e)
    (hb : isLineEnd b) (post : Text) :
    bodyFields (pre ++ (u ++ ascii '=' :: e) ++ b :: post) =
      bodyFields (pre ++ u ++ b :: post) := by
  obtain ⟨lines, hlines, hcut⟩ := exists_lines hpre hline
  have hkept := isKept_keptFrom (by decide : suitsMarks .parens) hlines isKept_nil
  have hgrouping := isPlain_of_isLineEnd hb
  have hplain : Brackets.parens.isPlain b ∧ Brackets.braces.isPlain b :=
    ⟨Brackets.isPlain_of_isPartOf (by decide) hgrouping,
      Brackets.isPlain_of_isPartOf (by decide) hgrouping⟩
  have hbalanced := balanced_blankFrom he.balanced
  have hblank : ∀ v, Balanced .braces v → blankFrom {} (pre ++ v ++ b :: post) =
      blankFrom {} pre ++ (blankFrom {} v ++ b :: blankFrom {} post) := by
    intro v hv
    rw [List.append_assoc, blankFrom_balanced (hpre.part (by decide)), blankFrom_balanced hv,
      blankFrom, Place.step_plain hplain.2, blanked_outside rfl]
  have hbraces : Balanced .braces u := hu.nested.part (by decide)
  have hequals : Balanced .braces (ascii '=' :: e) :=
    .byte (by decide) rfl (he.balanced.part (by decide))
  have hflat : ∀ t, blankFrom {} (u ++ t) = u ++ blankFrom {} t := blankFrom_outside hu.flat
  have hbare : blankFrom {} u = u := by simpa [blankFrom] using hflat []
  have hvalue : blankFrom {} (u ++ ascii '=' :: e) = u ++ ascii '=' :: blankFrom {} e := by
    rw [hflat, blankFrom, Place.step_plain (by decide), blanked_outside rfl]
  obtain ⟨first, rest, hfirst⟩ := exists_segments_cons .parens isLineEnd {} (blankFrom {} e)
  have hsegments : segments .parens isLineEnd {}
      (u ++ ascii '=' :: blankFrom {} e ++ b :: blankFrom {} post) =
      (u ++ ascii '=' :: first) ::
        (rest ++ segments .parens isLineEnd {} (blankFrom {} post)) := by
    rw [List.append_assoc, List.cons_append, segments_nested (by decide) hu.line (by simp),
      segments_byte (by decide) (by decide), segments_append_cut
        (Place.after_nested (by decide) hbalanced) hplain.1 hb, hfirst]
    simp
  have hquiet : ∀ l ∈ rest, IsQuiet l := by
    intro l hl
    exact he.quiet l (by rw [hfirst]; exact hl)
  rw [bodyFields_eq_scan, bodyFields_eq_scan, hblank _ (hbraces.append hequals), hblank _ hbraces,
    hvalue, hbare, scan, scan, hcut, hcut, propertiesFrom_append, propertiesFrom_append, hsegments,
    segments_nested_cut (by decide) hu.line hplain.1 hb, propertiesFrom_initializer hkept hu,
    propertiesFrom_quiet hquiet, propertiesFrom_line hu]

/-- A line feed at the end of a class body makes no difference. -/
lemma bodyFields_newline {s : Text} (hs : Balanced .grouping s) :
    bodyFields (s ++ [ascii '\n']) = bodyFields s := by
  obtain ⟨parts, last, -, -, hcut⟩ :=
    exists_segments_append (by decide) (balanced_blankFrom hs) isLineEnd
  have hblank : blankFrom {} (s ++ [ascii '\n']) = blankFrom {} s ++ [ascii '\n'] :=
    blankFrom_balanced (hs.part (by decide)) _
  have hself : segments .parens isLineEnd {} (blankFrom {} s) = parts ++ [last] := by
    simpa [segments, glue] using hcut []
  have hline : segments .parens isLineEnd {} [ascii '\n'] = [[], []] := by decide
  have hempty : ∀ pending, propertiesFrom pending [[]] = [] := fun pending => by
    have htrim : trim [] = [] := rfl
    simp [propertiesFrom, htrim]
  rw [bodyFields_eq_scan, bodyFields_eq_scan, scan, scan, hblank, hcut, hline, hself]
  have hglue : parts ++ glue last [[], []] = (parts ++ [last]) ++ [[]] := by simp [glue]
  rw [hglue, propertiesFrom_append, hempty, List.append_nil]

/-- The properties of a class body with the line of a property depend on the property, not on its
initializer. -/
lemma bodyFields_text {pre : Text} {d : Initialized} (hpre : Balanced .grouping pre)
    (hline : pre.getLast?.all isLineEnd) (hd : IsProperty d.declarator)
    (he : ∀ e ∈ d.initializer, IsInitializer e) {t : Text} (ht : t.head?.all isLineEnd) :
    bodyFields (pre ++ d.text ++ t) = bodyFields (pre ++ d.declarator ++ t) := by
  have hdeclarator : Balanced .grouping d.declarator := hd.nested.part (by decide)
  cases hi : d.initializer with
  | none => simp [Initialized.text, hi]
  | some e =>
    have htext : d.text = d.declarator ++ ascii '=' :: e := by simp [Initialized.text, hi]
    cases t with
    | cons b post =>
      rw [htext, bodyFields_initializer hpre hline hd (he e hi) (by simpa using ht)]
    | nil =>
      have hvalue : Balanced .grouping (ascii '=' :: e) := .byte (by decide) rfl (he e hi).balanced
      have h := bodyFields_initializer hpre hline hd (he e hi)
        (by decide : isLineEnd (ascii '\n') = true) []
      rw [List.append_nil, List.append_nil, htext,
        ← bodyFields_newline (hpre.append (hdeclarator.append hvalue)),
        ← bodyFields_newline (hpre.append hdeclarator), h]

end Kotlin

/-! ### Exchange of initializers -/

/-- Initializers and default values do not show in the fields.  They can be exchanged and removed in
a field statement of a Java class, in the parameters of a Kotlin constructor and in a property of a
Kotlin class, whatever stands around: the fields are those of the same declarators. -/
theorem fields_initializers {pre : Text} (hpre : Balanced .grouping pre) (post : Text)
    {ds ds' : List Initialized}
    (hsame : ds.map Initialized.declarator = ds'.map Initialized.declarator) :
    (Java.begun pre = [] → Java.IsStatement ds → Java.IsStatement ds' →
      Java.bodyFields (pre ++ Initialized.listText ds ++ ascii ';' :: post) =
        Java.bodyFields (pre ++ Initialized.listText ds' ++ ascii ';' :: post)) ∧
    (Initialized.AreListed ds → Initialized.AreListed ds' →
      (∀ d ∈ ds, Kotlin.IsParameter d.declarator) →
      Kotlin.parameterFields (Initialized.listText ds) =
        Kotlin.parameterFields (Initialized.listText ds')) ∧
    (∀ d d' : Initialized, pre.getLast?.all Kotlin.isLineEnd → post.head?.all Kotlin.isLineEnd →
      Kotlin.IsProperty d.declarator → (∀ e ∈ d.initializer, Kotlin.IsInitializer e) →
      (∀ e ∈ d'.initializer, Kotlin.IsInitializer e) → d.declarator = d'.declarator →
      Kotlin.bodyFields (pre ++ d.text ++ post) = Kotlin.bodyFields (pre ++ d'.text ++ post)) := by
  refine ⟨?_, ?_, ?_⟩
  · intro hbegun h h'
    exact Java.bodyFields_statement hpre hbegun h h' hsame post
  · intro h h' hds
    have hds' : ∀ d ∈ ds', Kotlin.IsParameter d.declarator := by
      intro d hd
      obtain ⟨q, hq, heq⟩ := List.mem_map.mp (hsame ▸ List.mem_map_of_mem hd)
      exact heq ▸ hds q hq
    rw [Kotlin.parameterFields_listText h hds, Kotlin.parameterFields_listText h' hds', hsame]
  · intro d d' hline hpost hd he he' hdeclarator
    rw [Kotlin.bodyFields_text hpre hline hd he hpost,
      Kotlin.bodyFields_text hpre hline (hdeclarator ▸ hd) he' hpost, hdeclarator]

/-- A generic call and a shift as initializers of one statement, a lambda and a generic call as
default values, and an initializer of two lines, each removed. -/
theorem fields_initializers_removed :
    Java.bodyFields (utf8 "int a= m<X, Y>, b= 1 << 2; long c;") =
      Java.bodyFields (utf8 "int a, b; long c;") ∧
    Kotlin.parameterFields (utf8 "val a: Int= x -> y, val b: Map<K, V>= m<K, V>") =
      Kotlin.parameterFields (utf8 "val a: Int, val b: Map<K, V>") ∧
    Kotlin.bodyFields (utf8 "val a: Int= 1\n+ 2\nval c: Int") =
      Kotlin.bodyFields (utf8 "val a: Int\nval c: Int") := by
  refine ⟨?_, ?_, ?_⟩
  · have hhead : Java.IsHead (utf8 "int a") [] (utf8 "int a") :=
      ⟨.of_plain (by decide), .of_plain (by decide), by decide, by decide, by decide, by decide⟩
    have hmore : Java.IsDeclarator (utf8 " b") := ⟨by decide, .of_plain (by decide), by decide⟩
    have hvalues : Java.IsStatement [⟨utf8 "int a", some (utf8 " m<X, Y>")⟩,
        ⟨utf8 " b", some (utf8 " 1 << 2")⟩] := by
      refine ⟨⟨_, rfl, _, _, hhead⟩, by simpa using hmore, ⟨by decide, by decide⟩, ?_⟩
      simpa using ⟨.of_plain (by decide), .of_plain (by decide)⟩
    have hbare : Java.IsStatement [⟨utf8 "int a", none⟩, ⟨utf8 " b", none⟩] :=
      ⟨⟨_, rfl, _, _, hhead⟩, by simpa using hmore, ⟨by decide, by decide⟩, by simp⟩
    exact (fields_initializers .nil (utf8 " long c;") (by rfl)).1 rfl hvalues hbare
  · have hps : ∀ u ∈ [utf8 "val a: Int", utf8 " val b: Map<K, V>"], Kotlin.IsParameter u := by
      have hwhole : ∀ u ∈ [utf8 "val a: Int", utf8 " val b: Map<K, V>"],
          Place.after .all {} u = {} ∧ segments .all (· == ascii ',') {} u = [u] ∧
            (u.all fun b => Brackets.grouping.isPlain b && !(b == ascii '=')) ∧ ascii 'y' ∉ u := by
        decide
      intro u hu
      obtain ⟨hclosed, hparts, hplain, hby⟩ := hwhole u hu
      refine ⟨hclosed, fun part hpart => ?_⟩
      rw [hparts, List.getLast?_singleton, Option.some.injEq] at hpart
      exact hpart ▸ ⟨.of_plain hplain, Kotlin.not_endsInBy hby⟩
    have hvalues : Initialized.AreListed [⟨utf8 "val a: Int", some (utf8 " x -> y")⟩,
        ⟨utf8 " val b: Map<K, V>", some (utf8 " m<K, V>")⟩] := ⟨by decide, by decide⟩
    have hbare : Initialized.AreListed [⟨utf8 "val a: Int", none⟩,
        ⟨utf8 " val b: Map<K, V>", none⟩] := ⟨by decide, by decide⟩
    exact (fields_initializers .nil [] (by rfl)).2.1 hvalues hbare (by simpa using hps)
  · have hproperty : Kotlin.IsProperty (utf8 "val a: Int") :=
      ⟨.of_plain (by decide), .of_plain (by decide), .of_plain (by decide),
        Kotlin.not_endsInBy (by decide), by decide⟩
    have hvalue : Kotlin.IsInitializer (utf8 " 1\n+ 2") :=
      ⟨.of_plain (by decide), by decide⟩
    exact (fields_initializers .nil (utf8 "\nval c: Int") (rfl : [].map _ = [].map _)).2.2
      ⟨utf8 "val a: Int", some (utf8 " 1\n+ 2")⟩ ⟨utf8 "val a: Int", none⟩ rfl rfl hproperty
      (by simpa using hvalue) (by simp) rfl

/-- The sign of a comparison opens a bracket that is never closed, so that the declarators and the
parameters behind it are lost, and the sign of one in parentheses closes them, so that an argument
becomes a field. -/
theorem fields_comparison :
    (Java.bodyFields "boolean a = x < y, b;").map Field.name = [utf8 "a"] ∧
      (Java.bodyFields "boolean a, b;").map Field.name = [utf8 "a", utf8 "b"] ∧
      (Java.bodyFields "int a = f((x > y), z, 1);").map Field.name = [utf8 "a", utf8 "z"] ∧
      (Kotlin.parameterFields "val a: Boolean = 1 < 2, val b: Int").map Field.name =
        [utf8 "a"] := by
  decide +kernel

end DtoSchema.Declaration
