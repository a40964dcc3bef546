import DtoSchema.Proofs.Source.Balance
import DtoSchema.Proofs.Declaration.Enumeration
import DtoSchema.Proofs.Declaration.Tails
import DtoSchema.Proofs.Mark.StringLiteral

/-!
# Printed annotations

An annotation is printed from its parts: a target, a dotted name and a list of arguments, with any
gaps where the languages allow them.  The value of an argument is any text whose brackets match,
counted for each kind alone, and that holds no comma outside of them (`Value`).

Reading inverts printing.  A printed annotation is read as it stands (`read?_text`), its arguments
are those that were printed (`arguments_mark`), and a list of annotations is read in order
(`readAll_texts`) up to the text that follows (`afterLeading_texts`).
-/

namespace DtoSchema.Declaration

open Text Source

lemma Gaps.all_isPlain (g : Gaps) : g.1.all Brackets.all.isPlain :=
  all_isPlain_of_isSpace (isSpace_of_isGap g.2)

lemma Gaps.notMem (g : Gaps) {b : UInt8} (hb : isGap b = false) : b ∉ g.1 := fun h => by
  simp [List.all_eq_true.mp g.2 b h] at hb

end DtoSchema.Declaration

namespace DtoSchema.Mark

open Text Source Declaration

/-! ### Syntax -/

/-- An identifier. -/
abbrev Ident := {w : Text // isIdent w}

/-- A value of an argument: a text that is not empty and trimmed, whose brackets of every kind match
outside of literals, and in which no comma stands outside of brackets. -/
structure Value where
  /-- The value as it is printed. -/
  text : Text
  ne_nil : text ≠ [] := by decide
  trimmed : trim text = text := by decide
  balanced : isBalancedInAll text := by decide
  uncut : Uncut .all (· == ascii ',') {} text := by decide

/-- An argument as it is printed. -/
inductive Entry where
  /-- A key and a value, with gaps in front of and behind the equals sign. -/
  | named (key : Ident) (before behind : Gaps) (value : Value)
  /-- A value alone, which holds no equals sign outside of brackets. -/
  | positional (value : Value) (uncut : Uncut .all (· == ascii '=') {} value.text)

/-- An annotation as it is printed. -/
structure Written where
  /-- What the annotation applies to. -/
  target : Option Ident
  /-- The name. -/
  name : DottedName isIdent
  /-- The gaps in front of the parentheses and the arguments, each of them between gaps. -/
  arguments : Option (Gaps × List (Gaps × Entry × Gaps))

namespace Entry

/-- What stands in front of the value of a named argument. -/
def lead (key : Ident) (before behind : Gaps) : Text := key.1 ++ before.1 ++ ascii '=' :: behind.1

/-- The argument as it is printed. -/
def text : Entry → Text
  | named key before behind value => lead key before behind ++ value.text
  | positional value _ => value.text

/-- What is to be read. -/
def argument : Entry → Argument
  | named key _ _ value => ⟨some key.1, value.text⟩
  | positional value _ => ⟨none, value.text⟩

/-- The argument with the gaps around it. -/
def padded (e : Gaps × Entry × Gaps) : Text := e.1.1 ++ e.2.1.text ++ e.2.2.1

end Entry

namespace Written

/-- The text between the parentheses. -/
def inside (entries : List (Gaps × Entry × Gaps)) : Text :=
  join [ascii ','] (entries.map Entry.padded)

/-- The parentheses with the gaps in front of them. -/
def parenthesized (a : Written) : Text :=
  a.arguments.elim [] fun p => p.1.1 ++ ascii '(' :: (inside p.2 ++ [ascii ')'])

/-- The annotation up to its name. -/
def heading (a : Written) : Text :=
  ascii '@' :: (a.target.elim [] (fun w => w.1 ++ [ascii ':']) ++ a.name.text)

/-- The annotation as it is printed. -/
def text (a : Written) : Text := a.heading ++ a.parenthesized

/-- The arguments of the annotation, in order. -/
def entries (a : Written) : List Entry := a.arguments.elim [] fun p => p.2.map (·.2.1)

/-- What is to be read. -/
def mark (a : Written) : Mark where
  target := a.target.elim [] (·.1)
  name := a.name.text
  body := a.arguments.map fun p => inside p.2
  text := a.text

/-- Annotations, each with the gaps behind it. -/
def texts (l : List (Written × Gaps)) : Text := l.flatMap fun p => p.1.text ++ p.2.1

end Written

/-! ### Values and arguments -/

lemma Ident.all_isPlain (w : Ident) : w.1.all Brackets.all.isPlain :=
  all_mono (fun _ => isPlain_of_isNamePart) (all_isNamePart_of_isIdent w.2)

lemma Ident.notMem (w : Ident) {b : UInt8} (hb : isIdentPart b = false) : b ∉ w.1 := fun h => by
  simp [List.all_eq_true.mp (all_isIdentPart_of_isIdent w.2) b h] at hb

lemma Ident.ne_nil (w : Ident) : w.1 ≠ [] := fun h => by simpa [h, isIdent] using w.2

namespace Entry

lemma notMem_lead (key : Ident) (before behind : Gaps) {b : UInt8}
    (hb : (isIdentPart b || isGap b || b == ascii '=') = false) : b ∉ lead key before behind := by
  simp only [Bool.or_eq_false_iff, beq_eq_false_iff_ne] at hb
  simp only [lead, List.mem_append, List.mem_cons, not_or]
  exact ⟨⟨key.notMem hb.1.1, before.notMem hb.1.2⟩, hb.2, behind.notMem hb.1.2⟩

lemma all_isPlain_lead (key : Ident) (before behind : Gaps) :
    (lead key before behind).all Brackets.all.isPlain := by
  have hsign : Brackets.all.isPlain (ascii '=') := by decide
  simp only [lead, List.all_append, List.all_cons, key.all_isPlain, before.all_isPlain, hsign,
    behind.all_isPlain, Bool.and_self]

lemma text_named (key : Ident) (before behind : Gaps) (value : Value) :
    (named key before behind value).text =
      key.1 ++ before.1 ++ ascii '=' :: (behind.1 ++ value.text) := by
  simp [text, lead]

lemma text_ne_nil (e : Entry) : e.text ≠ [] := by
  cases e with
  | named => simp [text, lead]
  | positional value => exact value.ne_nil

lemma trim_text (e : Entry) : trim e.text = e.text := by
  cases e with
  | positional value => exact value.trimmed
  | named key before behind value =>
    have hstart : trimStart (key.1 ++ before.1) = key.1 ++ before.1 := by
      have hink := head?_append_any
        (head?_isInk_of_isIdentStart (head?_isIdentStart_of_isIdent key.2)) before.1
      refine trimStart_eq_self ?_
      cases hhead : (key.1 ++ before.1).head? with
      | none => rfl
      | some b => simpa [hhead] using hink
    rw [text_named, trim_append_ink (by decide), hstart, trimEnd_gaps_append behind.2 value.ne_nil
      (trimEnd_of_trim value.trimmed)]

/-- The gaps around an argument are trimmed. -/
lemma trim_padded (e : Gaps × Entry × Gaps) : trim (padded e) = e.2.1.text := by
  rw [padded, trim_append_space (isSpace_of_isGap e.2.2.2), trim, trimStart_gaps e.1.2, ← trim,
    trim_text]

lemma isBalancedInAll_text (e : Entry) : isBalancedInAll e.text := by
  cases e with
  | positional value => exact value.balanced
  | named key before behind value =>
    exact isBalancedInAll_append
      (isBalancedInAll_of_plain (all_isPlain_lead key before behind)) value.balanced

lemma isBalancedInAll_padded (e : Gaps × Entry × Gaps) : isBalancedInAll (padded e) :=
  isBalancedInAll_append (isBalancedInAll_append (isBalancedInAll_of_plain e.1.all_isPlain)
    e.2.1.isBalancedInAll_text) (isBalancedInAll_of_plain e.2.2.all_isPlain)

/-- No comma of an argument stands outside of brackets. -/
lemma uncut_text (e : Entry) : Uncut .all (· == ascii ',') {} e.text := by
  cases e with
  | positional value => exact value.uncut
  | named key before behind value =>
    have hafter := Place.after_of_isBalanced
      (isBalanced_of_plain (all_isPlain_lead key before behind))
    refine (uncut_of_notMem (notMem_lead key before behind (by decide)) {}).append ?_
    rw [hafter]
    exact value.uncut

lemma uncut_padded (e : Gaps × Entry × Gaps) : Uncut .all (· == ascii ',') {} (padded e) := by
  have hgap : ∀ g : Gaps, Place.after .all {} g.1 = {} := fun g =>
    Place.after_of_isBalanced (isBalanced_of_plain g.all_isPlain)
  have htext := Place.after_of_isBalanced (isBalanced_all e.2.1.isBalancedInAll_text)
  have hcomma : ∀ g : Gaps, Uncut .all (· == ascii ',') {} g.1 := fun g =>
    uncut_of_notMem (g.notMem (by decide)) {}
  refine ((hcomma e.1).append ?_).append ?_
  · rw [hgap]
    exact e.2.1.uncut_text
  · rw [Place.after_append, hgap, htext]
    exact hcomma e.2.2

/-- The first equals sign at the top level of a named argument is the one behind its key. -/
lemma topLevelIndex?_named (key : Ident) (before behind : Gaps) (value : Value) :
    topLevelIndex? (ascii '=') (named key before behind value).text =
      some (key.1 ++ before.1).length := by
  have hfront : ascii '=' ∉ key.1 ++ before.1 := by
    rw [List.mem_append, not_or]
    exact ⟨key.notMem (by decide), before.notMem (by decide)⟩
  have hplain : (key.1 ++ before.1).all Brackets.all.isPlain := by
    rw [List.all_append, key.all_isPlain, before.all_isPlain, Bool.and_self]
  have hafter : Place.after .grouping {} (key.1 ++ before.1) = {} :=
    Place.after_of_isBalanced (isBalanced_of_isPartOf (by decide) hplain)
  have hcut : Place.cutsAt .grouping (· == ascii '=') {} (ascii '=') := by decide
  rw [text_named, topLevelIndex?, topLevelFrom_append, topLevelFrom_of_not_mem {} hfront, hafter]
  simp [topLevelFrom, hcut]

lemma ofPart_named (key : Ident) (before behind : Gaps) (value : Value) :
    Argument.ofPart (named key before behind value).text = ⟨some key.1, value.text⟩ := by
  have hkey : trim (key.1 ++ before.1) = key.1 := by
    rw [trim_append_space (isSpace_of_isGap before.2)]
    exact trim_eq_self (isTrimmed_of_isSolid (isSolid_of_isIdentPart
      (head?_isInk_of_isIdentStart (head?_isIdentStart_of_isIdent key.2))
      (getLast?_isIdentPart_of_isIdent key.2))).2
  have hvalue : trim (behind.1 ++ value.text) = value.text := by
    rw [trim, trimStart_gaps behind.2, ← trim, value.trimmed]
  have hdrop : (named key before behind value).text.drop ((key.1 ++ before.1).length + 1) =
      behind.1 ++ value.text := by
    rw [text_named, List.append_cons]
    exact List.drop_left' List.length_append
  rw [Argument.ofPart, topLevelIndex?_named]
  simp only [hdrop, hvalue]
  simp only [text_named, List.take_left', hkey, key.2, if_true]

lemma ofPart_positional (value : Value) (uncut : Uncut .all (· == ascii '=') {} value.text) :
    Argument.ofPart value.text = ⟨none, value.text⟩ := by
  rcases Argument.ofPart_cases value.text with heq | ⟨u, v, heq, -, hident, -⟩
  · exact heq
  · -- what stands in front of the sign is plain, so the sign stands outside of all brackets
    have hplain : u.all Brackets.all.isPlain := by
      obtain ⟨w, hw, hspace⟩ := exists_space_append u
      obtain ⟨w', hw', hspace'⟩ := exists_append_space (trimStart u)
      rw [hw, hw', List.all_append, List.all_append, all_isPlain_of_isSpace hspace,
        all_isPlain_of_isSpace hspace', Bool.true_and, Bool.and_true]
      exact Ident.all_isPlain ⟨trim u, hident⟩
    have hcuts : Place.cutsAt .all (· == ascii '=') {} (ascii '=') := by decide
    have hafter := Place.after_of_isBalanced (isBalanced_of_plain hplain)
    have hfalse := uncut u (ascii '=') v heq
    rw [hafter, hcuts] at hfalse
    exact absurd hfalse (by simp)

/-- An argument is recognized. -/
lemma ofPart_text (e : Entry) : Argument.ofPart e.text = e.argument := by
  cases e with
  | named key before behind value => exact ofPart_named key before behind value
  | positional value uncut => exact ofPart_positional value uncut

end Entry

namespace Written

/-! ### Reading arguments -/

lemma isBalancedInAll_inside (entries : List (Gaps × Entry × Gaps)) :
    isBalancedInAll (inside entries) := by
  have hcomma : isBalancedInAll [ascii ','] := isBalancedInAll_of_plain (by decide)
  induction entries with
  | nil => exact isBalancedInAll_of_plain (by decide)
  | cons e entries ih =>
    cases entries with
    | nil => simpa [inside, join] using Entry.isBalancedInAll_padded e
    | cons e' entries =>
      rw [inside, List.map_cons, List.map_cons, join_cons_cons]
      exact isBalancedInAll_append
        (isBalancedInAll_append (Entry.isBalancedInAll_padded e) hcomma) ih

/-- The parts of the text between the parentheses are the arguments with their gaps. -/
lemma segments_inside {entries : List (Gaps × Entry × Gaps)} (hne : entries ≠ []) :
    segments .all (· == ascii ',') {} (inside entries) = entries.map Entry.padded := by
  have hafter : ∀ t ∈ (entries.map Entry.padded).dropLast, Place.after .all {} t = {} := by
    intro t ht
    obtain ⟨e, -, rfl⟩ := List.mem_map.mp (List.mem_of_mem_dropLast ht)
    exact Place.after_of_isBalanced (isBalanced_all (Entry.isBalancedInAll_padded e))
  rw [inside, segments_join_closed (by decide) (by decide) (by simpa using hne) hafter,
    List.flatMap_map]
  have hsingle : ∀ e ∈ entries, segments .all (· == ascii ',') {} (Entry.padded e) =
      [Entry.padded e] := fun e _ => uncut_iff_segments.mp (Entry.uncut_padded e)
  rw [List.flatMap_congr hsingle]
  exact List.map_eq_flatMap.symm

/-- The arguments are read as they were printed. -/
lemma arguments_mark (a : Written) : a.mark.arguments = a.entries.map Entry.argument := by
  unfold Mark.arguments mark entries
  cases a.arguments with
  | none => rfl
  | some p =>
    obtain ⟨g, entries⟩ := p
    cases hentries : entries with
    | nil => rfl
    | cons e es =>
      rw [← hentries]
      have hne : entries ≠ [] := by simp [hentries]
      have hsplit : splitTopLevel (ascii ',') (inside entries) = entries.map Entry.padded := by
        rw [splitTopLevel, segments_inside hne, dropEmptyEnd, if_neg]
        intro hlast
        obtain ⟨e, -, he⟩ := List.mem_map.mp (List.mem_of_getLast? hlast)
        have htext : e.2.1.text = [] := by rw [← Entry.trim_padded, he]; rfl
        exact e.2.1.text_ne_nil htext
      have hparts : ((entries.map Entry.padded).map trim).filter (!·.isEmpty) =
          entries.map (·.2.1.text) := by
        rw [List.map_map, List.filter_eq_self.mpr]
        · exact List.map_congr_left fun e _ => Entry.trim_padded e
        · intro part hpart
          obtain ⟨e, -, rfl⟩ := List.mem_map.mp hpart
          simpa [Entry.trim_padded] using e.2.1.text_ne_nil
      simp only [Option.map_some, Option.elim_some, hsplit, hparts]
      rw [List.map_map, List.map_map]
      exact List.map_congr_left fun e _ => Entry.ofPart_text e.2.1

/-! ### Reading annotations -/

lemma name_ne_nil (a : Written) : a.name.text ≠ [] := by
  intro h
  simpa [h] using a.name.text_head? fun _ h => h

lemma afterColon?_eq_none {t : Text} (ht : t.head? ≠ some (ascii ':')) :
    Mark.afterColon? t = none := by
  cases t with
  | nil => rfl
  | cons b t =>
    have hb : b ≠ ascii ':' := by simpa using ht
    rw [Mark.afterColon?, if_neg fun h => hb h.1]

/-- What follows the name of an annotation continues neither the name nor a target. -/
lemma head?_parenthesized (a : Written) {t : Text} (ht : a.arguments = none → isTail t) :
    (a.parenthesized ++ t).head?.any isNamePart = false ∧
      (a.parenthesized ++ t).head? ≠ some (ascii ':') := by
  unfold parenthesized
  cases ha : a.arguments with
  | none => exact ⟨head?_isNamePart_of_isTail (ht ha), head?_ne_of_isTail (ht ha)⟩
  | some p =>
    have h := head?_gaps_append p.1.2 (b := ascii '(') (by decide) (inside p.2 ++ [ascii ')'] ++ t)
    simpa using h

/-- The parentheses of an annotation are read as they were printed. -/
lemma readArguments_parenthesized (a : Written) (target name heading : Text) {t : Text}
    (ht : a.arguments = none → isTail t) :
    readArguments target name heading (a.parenthesized ++ t) =
      ⟨target, name, a.mark.body, heading ++ a.parenthesized⟩ := by
  unfold readArguments parenthesized mark
  cases ha : a.arguments with
  | none =>
    simp [readBalanced?_of_isTail (ht ha)]
  | some p =>
    have hbalanced : isBalanced (.single (ascii '(') (ascii ')')) (inside p.2) :=
      isBalanced_single (by decide) (isBalancedInAll_inside p.2)
    have htext : p.1.1 ++ ascii '(' :: (inside p.2 ++ [ascii ')']) ++ t =
        p.1.1 ++ ascii '(' :: (inside p.2 ++ ascii ')' :: t) := by simp
    obtain ⟨hskip, htake⟩ := skipGaps_append p.1.2
      (t := ascii '(' :: (inside p.2 ++ ascii ')' :: t)) (by simp; decide)
    simp only [Option.elim_some, Option.map_some]
    rw [htext, hskip, htake, readBalanced?_of_isBalanced (by decide) hbalanced]
    simp [utf8_closeParen]

/-- A printed annotation is read. -/
lemma read?_text (a : Written) {t : Text} (ht : a.arguments = none → isTail t) :
    Mark.read? (a.text ++ t) = some a.mark := by
  obtain ⟨hpart, hcolon⟩ := a.head?_parenthesized ht
  have hname := nameSpan_text (fun _ h => h) a.name hpart
  cases htarget : a.target with
  | none =>
    have htext : a.text ++ t = ascii '@' :: (a.name.text ++ (a.parenthesized ++ t)) := by
      simp [text, heading, htarget]
    have hread := read?_name (s := a.name.text ++ (a.parenthesized ++ t))
      (by rw [hname]; exact a.name_ne_nil) (by rw [hname]; exact afterColon?_eq_none hcolon)
    rw [htext, hread, hname, a.readArguments_parenthesized _ _ _ ht]
    simp [mark, text, heading, htarget]
  | some w =>
    have htext : a.text ++ t =
        ascii '@' :: (w.1 ++ ascii ':' :: (a.name.text ++ (a.parenthesized ++ t))) := by
      simp [text, heading, htarget]
    have hstop : Mark.nameSpan (ascii ':' :: (a.name.text ++ (a.parenthesized ++ t))) =
        ([], ascii ':' :: (a.name.text ++ (a.parenthesized ++ t))) :=
      nameSpan_stop (by simp; decide)
    have hspan : Mark.nameSpan (w.1 ++ ascii ':' :: (a.name.text ++ (a.parenthesized ++ t))) =
        (w.1, ascii ':' :: (a.name.text ++ (a.parenthesized ++ t))) := by
      rw [nameSpan_run (all_isIdentPart_of_isIdent w.2), hstop, List.append_nil]
    have hafter : Mark.afterColon? (ascii ':' :: (a.name.text ++ (a.parenthesized ++ t))) =
        some (a.name.text, a.parenthesized ++ t) := by
      have hhead := head?_append_any (a.name.text_head? fun _ h => h) (a.parenthesized ++ t)
      rw [Mark.afterColon?, if_pos ⟨rfl, hhead⟩, hname]
    have hread := read?_target (s := w.1 ++ ascii ':' :: (a.name.text ++ (a.parenthesized ++ t)))
      (by rw [hspan]; exact w.ne_nil) (by rw [hspan]; exact hafter)
    rw [htext, hread, hspan, a.readArguments_parenthesized _ _ _ ht]
    simp [mark, text, heading, htarget]

/-! ### Reading lists of annotations -/

/-- Gaps in front of a text do not continue an annotation; what follows them has to offer no
parentheses. -/
lemma isTail_gaps_append (g : Gaps) {t : Text} (hhead : g.1 = [] → isTail t)
    (ht : t.head?.all fun b => !isGap b && b != ascii '(') : isTail (g.1 ++ t) := by
  have hbytes : ∀ b, isGap b = true →
      (!isNamePart b && b != ascii ':' && !isContinuation b) = true := by
    intro b hb
    simp only [isGap, Bool.or_eq_true, beq_iff_eq] at hb
    rcases hb with (((rfl | rfl) | rfl) | rfl) | rfl <;> decide
  obtain ⟨g, hg⟩ := g
  cases g with
  | nil => exact hhead rfl
  | cons b g =>
    have hskip : skipGaps (b :: g ++ t) = skipGaps t := by
      rw [skipGaps_append_eq, if_pos]
      exact List.dropWhile_eq_nil_iff.mpr (List.all_eq_true.mp hg)
    have hopen : (skipGaps t).head? ≠ some (ascii '(') := by
      cases t with
      | nil => simp [skipGaps]
      | cons c t =>
        simp only [List.head?_cons, Option.all_some, Bool.and_eq_true, Bool.not_eq_true',
          bne_iff_ne] at ht
        simpa [skipGaps, ht.1] using ht.2
    rw [isTail, hskip]
    simp [hbytes b (List.all_eq_true.mp hg b (by simp)), hopen]

/-- Printed annotations and what follows them continue no annotation in front of them. -/
lemma isTail_texts_append {p : Written × Gaps} {l : List (Written × Gaps)} (g : Gaps) (t : Text) :
    isTail (g.1 ++ (texts (p :: l) ++ t)) := by
  have hhead : (texts (p :: l) ++ t).head? = some (ascii '@') := by simp [texts, text, heading]
  refine isTail_gaps_append g (fun _ => ?_) (by rw [hhead]; decide)
  have hskip : skipGaps (texts (p :: l) ++ t) = texts (p :: l) ++ t :=
    skipGaps_eq_self (by rw [hhead]; decide)
  rw [isTail, hskip, hhead]
  decide

/-- Printed annotations are read in order. -/
lemma readAll_texts (l : List (Written × Gaps)) : Mark.readAll (texts l) = l.map (·.1.mark) := by
  induction l with
  | nil => rfl
  | cons p l ih =>
    have htail : isTail (p.2.1 ++ texts l) := by
      cases l with
      | nil => exact isTail_gaps_append p.2 (fun _ => rfl) rfl
      | cons q l => simpa using isTail_texts_append p.2 []
    have htexts : texts (p :: l) = p.1.mark.text ++ (p.2.1 ++ texts l) := by simp [texts, mark]
    rw [htexts, readAll_mark (p.1.read?_text fun _ => htail) (by simp [mark, text, heading]),
      readAll_skip (p.2.notMem (by decide)), ih, List.map_cons]

/-- Another text follows the annotations: it starts with neither a gap nor an annotation nor a
parenthesis, and it is set apart from a last annotation without parentheses. -/
structure Follows (l : List (Written × Gaps)) (rest : Text) : Prop where
  head : rest.head?.all fun b => !isGap b && b != ascii '@' && b != ascii '('
  apart : ∀ p ∈ l.getLast?, p.1.arguments = none → p.2.1 ≠ [] ∨ rest = []

lemma afterLeading_texts {l : List (Written × Gaps)} {rest : Text} (h : Follows l rest) :
    Mark.afterLeading (texts l ++ rest) = rest := by
  have hhead : rest.head?.any isGap = false ∧ rest.head? ≠ some (ascii '@') ∧
      (rest.head?.all fun b => !isGap b && b != ascii '(') = true := by
    have h := h.head
    cases rest with
    | nil => simp
    | cons b rest => simp_all
  induction l with
  | nil =>
    refine afterLeading_stop hhead.1 ?_
    cases rest with
    | nil => rfl
    | cons b rest => exact read?_eq_none (by simpa using hhead.2.1) rest
  | cons p l ih =>
    have htail : p.1.arguments = none → isTail (p.2.1 ++ (texts l ++ rest)) := by
      cases l with
      | nil =>
        intro ha
        refine isTail_gaps_append p.2 (fun hnil => ?_) hhead.2.2
        rcases h.apart p rfl ha with hne | rfl
        · exact absurd hnil hne
        · rfl
      | cons q l => exact fun _ => isTail_texts_append p.2 rest
    have hrest : Follows l rest := by
      refine ⟨h.head, fun q hq => h.apart q ?_⟩
      cases l with
      | nil => simp at hq
      | cons q' l => simpa using hq
    have htexts : texts (p :: l) ++ rest = p.1.mark.text ++ (p.2.1 ++ (texts l ++ rest)) := by
      simp [texts, mark]
    rw [htexts, afterLeading_mark (p.1.read?_text htail) (by simp [mark, text, heading])
      (by simp [mark, text, heading]; decide), afterLeading_gaps p.2.2, ih hrest]

/-! ### Looking arguments up -/

/-- The values of the arguments with the given key, in order; those without a key are positional. -/
def values (a : Written) (key : Option Text) : List Text :=
  ((a.entries.map Entry.argument).filter (·.key == key)).map (·.value)

lemma named?_mark (a : Written) (key : Ident) :
    a.mark.named? key.1 = (a.values (some key.1)).head? := by
  have hlabel : (fun arg : Argument => arg.label == key.1) = fun arg => arg.key == some key.1 := by
    funext arg
    cases hkey : arg.key with
    | none =>
      have hne : ([] : Text) ≠ key.1 := key.ne_nil.symm
      simpa [Argument.label, hkey] using hne
    | some k => simp [Argument.label, hkey]
  rw [Mark.named?, arguments_mark, hlabel, ← List.head?_filter, values, List.head?_map]

lemma positional?_mark (a : Written) (i : ℕ) : a.mark.positional? i = (a.values none)[i]? := by
  have hnone : (fun arg : Argument => arg.key.isNone) = fun arg => arg.key == none := by
    funext arg
    cases arg.key <;> rfl
  rw [Mark.positional?, arguments_mark, hnone, values, List.getElem?_map]

/-- Reading inverts printing.  Printed annotations are read in order, each of them with its target,
name, body and text; their arguments are those that were printed, a key finds the first value that
was printed for it, and a number finds the value without a key at this place.  The annotations at
the start of a text end where the text that follows them starts. -/
theorem reading_inverts_printing (g : Gaps) (l : List (Written × Gaps)) :
    Mark.readAll (g.1 ++ texts l) = l.map (·.1.mark) ∧
      (∀ p ∈ l, p.1.mark.arguments = p.1.entries.map Entry.argument ∧
        (∀ key : Ident, p.1.mark.named? key.1 = (p.1.values (some key.1)).head?) ∧
        ∀ i, p.1.mark.positional? i = (p.1.values none)[i]?) ∧
      ∀ rest, Follows l rest →
        Mark.leadingEnd (g.1 ++ texts l ++ rest) = (g.1 ++ texts l).length := by
  refine ⟨?_, fun p _ => ⟨p.1.arguments_mark, p.1.named?_mark, p.1.positional?_mark⟩,
    fun rest hrest => ?_⟩
  · rw [readAll_skip (g.notMem (by decide)), readAll_texts]
  · rw [Mark.leadingEnd, List.append_assoc, afterLeading_gaps g.2, afterLeading_texts hrest]
    simp only [List.length_append]
    omega

/-- A value with a quoted parenthesis, and a comma between parentheses. -/
theorem reading_inverts_printing_pair :
    Mark.readAll "@get:Max(f(a, \")\"))\n@Email " =
        [⟨"get", "Max", some "f(a, \")\")", "@get:Max(f(a, \")\"))"⟩, ⟨[], "Email", none, "@Email"⟩] ∧
      Mark.positional? ⟨"get", "Max", some "f(a, \")\")", "@get:Max(f(a, \")\"))"⟩ 0 =
        some (utf8 "f(a, \")\")") ∧
      Mark.leadingEnd "@get:Max(f(a, \")\"))\n@Email val" = 27 := by
  let bare : Gaps := ⟨[], rfl⟩
  let line : Gaps := ⟨"\n", by decide⟩
  let blank : Gaps := ⟨" ", by decide⟩
  let max : Written := ⟨some ⟨"get", by decide⟩, ⟨[], ⟨"Max", by decide⟩⟩,
    some (bare, [(bare, .positional { text := "f(a, \")\")" } (by decide), bare)])⟩
  let email : Written := ⟨none, ⟨[], ⟨"Email", by decide⟩⟩, none⟩
  obtain ⟨hread, harguments, hend⟩ := reading_inverts_printing bare [(max, line), (email, blank)]
  have htext : bare.1 ++ texts [(max, line), (email, blank)] =
      utf8 "@get:Max(f(a, \")\"))\n@Email " := by decide
  have hmark : max.mark = ⟨"get", "Max", some "f(a, \")\")", "@get:Max(f(a, \")\"))"⟩ := by decide
  have hfollows : Follows [(max, line), (email, blank)] "val" := by
    refine ⟨by decide, fun p hp _ => Or.inl ?_⟩
    obtain rfl := Option.some.inj hp
    decide
  have hmax := (harguments (max, line) (by simp)).2.2 0
  have hend' := hend _ hfollows
  rw [htext] at hread hend'
  exact ⟨hread, by rw [← hmark]; exact hmax, hend'⟩

end Written

end DtoSchema.Mark
