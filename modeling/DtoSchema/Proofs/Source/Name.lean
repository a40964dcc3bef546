import DtoSchema.Proofs.Source.Nested
import DtoSchema.Proofs.Text.Trimming

/-!
# Printed names

A dotted name is a sequence of identifiers with dots between neighbours.  Which identifiers may
occur in it is a parameter, since the dialects reserve different words.
-/

namespace DtoSchema.Source

open Text

/-! ### Bytes of names -/

/-- The bytes of dotted names. -/
def isNamePart (b : UInt8) : Bool := isIdentPart b || b == ascii '.'

/-- The bytes of identifiers are bytes of dotted names. -/
lemma isNamePart_of_isIdentPart {b : UInt8} (h : isIdentPart b) : isNamePart b := by
  simp [isNamePart, h]

/-- The bytes of words are bytes of dotted names. -/
lemma isNamePart_of_isWord {b : UInt8} (h : isWord b) : isNamePart b :=
  isNamePart_of_isIdentPart (isIdentPart_of_isWord h)

/-- The bytes of names are visible. -/
lemma isInk_of_isNamePart {b : UInt8} (h : isNamePart b) : isInk b := by
  simp only [isNamePart, Bool.or_eq_true, beq_iff_eq] at h
  rcases h with h | rfl
  · exact isInk_of_isIdentPart h
  · decide

/-- The bytes of a class are plain if neither quotes nor brackets of the family are in it. -/
lemma Brackets.isPlain_of_class {brackets : Brackets} {p : UInt8 → Bool}
    (h : ([ascii '"', ascii '\''] ++ brackets.opening ++ brackets.closing).all (!p ·)) {b : UInt8}
    (hb : p b) : brackets.isPlain b := by
  have hmem := notMem_of_class h hb
  simp only [List.mem_append, not_or] at hmem
  obtain ⟨⟨hquotes, hopening⟩, hclosing⟩ := hmem
  have hquote : isQuote b = false := by simpa [isQuote] using hquotes
  simp [isPlain, hquote, hopening, hclosing]

/-- They separate nothing either if no separator is in the class. -/
lemma Brackets.passes_of_class {brackets : Brackets} {p sep : UInt8 → Bool} (l : Text)
    (hsep : ∀ b, sep b = true → b ∈ l)
    (h : ([ascii '"', ascii '\''] ++ brackets.opening ++ brackets.closing).all (!p ·))
    (hl : l.all (!p ·)) : ∀ b, p b = true → brackets.isPlain b ∧ sep b = false :=
  fun b hb => ⟨isPlain_of_class h hb, Bool.eq_false_iff.mpr (notMem_of_class hl hb ∘ hsep b)⟩

/-- A text of such bytes is nested. -/
lemma Nested.of_class {brackets : Brackets} {p sep : UInt8 → Bool} (l : Text)
    (hsep : ∀ b, sep b = true → b ∈ l)
    (h : ([ascii '"', ascii '\''] ++ brackets.opening ++ brackets.closing).all (!p ·))
    (hl : l.all (!p ·)) {s : Text} (hs : s.all p) : Nested brackets sep s :=
  .of_plain (all_mono (fun b hb => by simp [Brackets.passes_of_class l hsep h hl b hb]) hs)

/-- The bytes of names are neither quotes nor brackets. -/
lemma isPlain_of_isNamePart {b : UInt8} (h : isNamePart b) : Brackets.all.isPlain b :=
  Brackets.isPlain_of_class (by decide) h

/-- An identifier is made of the bytes of identifiers. -/
lemma all_isIdentPart_of_isIdent {w : Text} (h : isIdent w) : w.all isIdentPart := by
  cases w with
  | nil => simp [isIdent] at h
  | cons b s =>
    simp only [isIdent, Bool.and_eq_true] at h
    simp only [List.all_cons, Bool.and_eq_true]
    exact ⟨by simp [isIdentPart, h.1], h.2⟩

/-- An identifier is made of the bytes of names. -/
lemma all_isNamePart_of_isIdent {w : Text} (h : isIdent w) : w.all isNamePart :=
  all_mono (fun _ => isNamePart_of_isIdentPart) (all_isIdentPart_of_isIdent h)

/-- An identifier starts with a byte that starts identifiers. -/
lemma head?_isIdentStart_of_isIdent {w : Text} (h : isIdent w) : w.head?.any isIdentStart := by
  cases w with
  | nil => simp [isIdent] at h
  | cons b s =>
    simp only [isIdent, Bool.and_eq_true] at h
    simpa using h.1

/-- An identifier is not empty. -/
lemma ne_nil_of_isIdent {w : Text} (h : isIdent w) : w ≠ [] := by
  rintro rfl
  simp [isIdent] at h

/-- An identifier ends with a byte of identifiers. -/
lemma getLast?_isIdentPart_of_isIdent {w : Text} (h : isIdent w) :
    w.getLast?.any isIdentPart := by
  have hall := List.all_eq_true.mp (all_isIdentPart_of_isIdent h)
  have hne := ne_nil_of_isIdent h
  rw [List.getLast?_eq_some_getLast hne]
  exact hall _ (List.getLast_mem hne)

/-- What starts visibly and ends with a byte of identifiers starts and ends visibly. -/
lemma isSolid_of_isIdentPart {s : Text} (hstart : s.head?.any isInk)
    (hend : s.getLast?.any isIdentPart) : isSolid s := by
  refine isSolid_iff.mpr ⟨hstart, ?_⟩
  cases hlast : s.getLast? with
  | none => simp [hlast] at hend
  | some b => exact isInk_of_isNamePart (isNamePart_of_isIdentPart (by simpa [hlast] using hend))

/-- The identifier at the start of a text is read as a whole. -/
lemma identAt_append {w t : Text} (hw : isIdent w) (ht : t.head?.any isIdentPart = false) :
    identAt (w ++ t) = w := by
  cases w with
  | nil => simp [isIdent] at hw
  | cons b w =>
    simp only [isIdent, Bool.and_eq_true, List.all_eq_true] at hw
    simp only [List.cons_append, identAt, hw.1, if_true, List.takeWhile_append_of_pos hw.2]
    cases t with
    | nil => simp
    | cons c t => simp_all

/-- No identifier starts with another byte. -/
lemma identAt_eq_nil {b : UInt8} (hb : isIdentStart b = false) (s : Text) :
    identAt (b :: s) = [] := by
  simp [identAt, hb]

/-- What starts like an identifier starts visibly. -/
lemma head?_isInk_of_isIdentStart {s : Text} (h : s.head?.any isIdentStart) :
    s.head?.any isInk := by
  cases s with
  | nil => simp at h
  | cons b s => exact isInk_of_isIdentStart (by simpa using h)

/-- The identifier at the start of a text without gaps in front. -/
lemma leadingIdent_eq_identAt {s : Text} (h : s.head?.any isIdentStart) :
    leadingIdent s = identAt s := by
  have hink := head?_isInk_of_isIdentStart h
  cases s with
  | nil => rfl
  | cons b s =>
    have hgap := isGap_of_isInk (b := b) (by simpa using hink)
    simp [leadingIdent, skipGaps, hgap]

/-! ### Dotted names -/

/-- A dotted name of identifiers of the class `ok`. -/
structure DottedName (ok : Text → Bool) where
  /-- The identifiers in front of the last one. -/
  qualifiers : List {w : Text // ok w}
  /-- The last identifier. -/
  last : {w : Text // ok w}

namespace DottedName

variable {ok : Text → Bool}

/-- The qualifiers as they are written, each with a dot behind it. -/
def qualification (qualifiers : List {w : Text // ok w}) : Text :=
  qualifiers.flatMap fun w => w.1 ++ "."

/-- The name as it is written. -/
def text (n : DottedName ok) : Text := qualification n.qualifiers ++ n.last.1

lemma text_cons (w last : {w : Text // ok w}) (ws : List {w : Text // ok w}) :
    (mk (w :: ws) last).text = w.1 ++ ascii '.' :: (mk ws last).text := by
  simp [text, qualification, utf8_dot]

/-- The first identifier of a name and what is written behind it. -/
lemma text_eq_first_append (n : DottedName ok) :
    ∃ (w : {w : Text // ok w}) (rest : Text), n.text = w.1 ++ rest ∧
      (rest = [] ∨ rest.head? = some (ascii '.')) := by
  obtain ⟨qualifiers, last⟩ := n
  cases qualifiers with
  | nil => exact ⟨last, [], by simp [text, qualification], Or.inl rfl⟩
  | cons w ws =>
    refine ⟨w, ascii '.' :: (qualification ws ++ last.1), ?_, Or.inr rfl⟩
    simp [text, qualification, utf8_dot]

section

variable (hok : ∀ w, ok w = true → isIdent w = true)

include hok

/-- A dotted name is made of the bytes of names. -/
lemma text_all (n : DottedName ok) : n.text.all isNamePart := by
  have hident : ∀ w : {w : Text // ok w}, ∀ b ∈ w.1, isNamePart b := fun w b hb =>
    isNamePart_of_isIdentPart
      (List.all_eq_true.mp (all_isIdentPart_of_isIdent (hok w.1 w.2)) b hb)
  have hdot : (utf8 ".").all isNamePart := by decide
  rw [List.all_eq_true]
  intro b hb
  simp only [text, qualification, List.mem_append, List.mem_flatMap] at hb
  rcases hb with ⟨w, -, hw | hd⟩ | hl
  · exact hident w b hw
  · exact List.all_eq_true.mp hdot b hd
  · exact hident n.last b hl

/-- A dotted name starts like an identifier. -/
lemma text_head? (n : DottedName ok) : n.text.head?.any isIdentStart := by
  obtain ⟨w, rest, htext, -⟩ := n.text_eq_first_append
  have hw := head?_isIdentStart_of_isIdent (hok w.1 w.2)
  rw [htext]
  cases hcase : w.1 with
  | nil => simp [hcase] at hw
  | cons b s => simpa [hcase] using hw

end

end DottedName

/-! ### Names in front of brackets -/

/-- The text is a name, followed by nothing, by arguments or by bracket pairs. -/
structure HasTypeShape (s : Text) (name rest : Text) : Prop where
  /-- The two parts are the text. -/
  eq_append : s = name ++ rest
  /-- The name is made of the bytes of names. -/
  name_all : name.all isNamePart
  /-- What follows starts with a bracket. -/
  rest_head : ∀ b, rest.head? = some b → b = ascii '<' ∨ b = ascii '['

namespace HasTypeShape

variable {s name rest : Text}

/-- A word of the bytes of names that a type starts with is a start of its name. -/
lemma afterPrefix? (hs : HasTypeShape s name rest) {w r : Text}
    (hw : w.all isNamePart) (h : Text.afterPrefix? w s = some r) :
    ∃ u, name = w ++ u ∧ r = u ++ rest := by
  rw [afterPrefix?_eq_some_iff, hs.eq_append, List.append_eq_append_iff] at h
  rcases h with ⟨u, hwname, hrest⟩ | ⟨u, hname, hr⟩
  · cases u with
    | nil => exact ⟨[], by simpa using hwname.symm, by simpa using hrest.symm⟩
    | cons b u =>
      -- the word would reach into what follows the name, which starts with a bracket
      have hb : isNamePart b := List.all_eq_true.mp hw b (by simp [hwname])
      rcases hs.rest_head b (by simp [hrest]) with rfl | rfl
      · exact absurd hb (by decide)
      · exact absurd hb (by decide)
  · exact ⟨u, hname, hr⟩

/-- What follows a part of a name does not start with a gap, and it starts with arguments only if
the part is the whole name. -/
lemma skipGaps (hs : HasTypeShape s name rest) {w u : Text} (hu : name = w ++ u) :
    Source.skipGaps (u ++ rest) = u ++ rest ∧
      ((u ++ rest).head? = some (ascii '<') → name = w ∧ rest.head? = some (ascii '<')) := by
  cases u with
  | nil =>
    refine ⟨?_, fun hopen => ⟨by simpa using hu, by simpa using hopen⟩⟩
    cases hrest : rest with
    | nil => rfl
    | cons b rest' =>
      have hgap : isGap b = false := by
        rcases hs.rest_head b (by simp [hrest]) with rfl | rfl <;> decide
      simp [Source.skipGaps, hgap]
  | cons b u =>
    have hb : isNamePart b := List.all_eq_true.mp hs.name_all b (by simp [hu])
    have hgap := isGap_of_isInk (isInk_of_isNamePart hb)
    have hne : b ≠ ascii '<' := ne_of_class hb (by decide)
    exact ⟨by simp [Source.skipGaps, hgap], fun hopen => absurd (by simpa using hopen) hne⟩

end HasTypeShape

end DtoSchema.Source
