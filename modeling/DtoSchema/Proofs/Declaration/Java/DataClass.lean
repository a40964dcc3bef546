import DtoSchema.Proofs.Declaration.Java.Class
import DtoSchema.Proofs.Source.Lines

/-!
# Printed classes that hold data

A `DataClass` declares fields and nothing else.  Everything that it holds is printed code on one
line: its only literals are those of annotations, so a source of such classes is normal if no
literal holds a line end (`DataClass.isNormalLine_text`), whatever else is in them, and a keyword
that no literal holds does not stand in the source (`DataClass.free_source`).
-/

namespace DtoSchema.Declaration.Java

open Text Source

/-- The bytes of a statement. -/
lemma FieldSyntax.bytes_text {L : Lexicon} (h : L.Spells isLineByte) (f : FieldSyntax L) :
    f.text.all isLineByte := by
  have hmodifiers : (modifierTexts f.modifiers).all isLineByte := by
    refine List.all_eq_true.mpr fun b hb => ?_
    rcases isWord_of_mem_modifierTexts areWords_modifiers hb with hb | rfl
    · exact isLineByte_of_class (by decide) b hb
    · decide
  have hdeclaration := all_mono (isLineByte_of_class (by decide)) f.bytes_declaration
  simp only [text, List.all_append, MarkSyntax.bytes h (by decide) f.marks, hmodifiers,
    hdeclaration, Bool.and_self]

/-- A class that declares fields and nothing else. -/
structure DataClass (L : Lexicon) where
  /-- The name. -/
  name : L.Name
  /-- The statements that declare fields, in order. -/
  fields : List (FieldSyntax L)

namespace DataClass

variable {L : Lexicon}

/-- The class as it is printed. -/
def printed (c : DataClass L) : ClassSyntax L := ⟨c.name, c.fields.map .field⟩

/-- The content of the braces, statement by statement. -/
lemma bodyText_printed (c : DataClass L) :
    c.printed.bodyText =
      c.fields.flatMap (fun f => ascii ' ' :: (f.text ++ ";")) ++ [ascii ' '] := by
  simp [printed, ClassSyntax.bodyText, Member.text, List.flatMap_map]

/-- The class as it is written, up to the brace that closes it. -/
def front (c : DataClass L) : Text := "class " ++ c.name.1 ++ " \x7b" ++ c.printed.bodyText

/-- The closing brace is the last byte of a class. -/
lemma text_printed (c : DataClass L) : c.printed.text = c.front ++ [ascii '\x7d'] := by
  have hopen : utf8 " \x7b" = utf8 " " ++ [ascii '\x7b'] := by decide
  simp [ClassSyntax.text, front, printed, blockText, hopen]

/-! ### Keywords -/

/-- A keyword that is no modifier and that the lexicon avoids stands in no body. -/
lemma free_bodyText {k : Text} (hk : L.Avoids k) (hmodifier : k ∉ modifiers) (c : DataClass L) :
    Free k c.printed.bodyText := by
  have hspace : isSep [ascii ' '] := by decide
  rw [bodyText_printed]
  induction c.fields with
  | nil => exact .of_sep hk.keyword hspace
  | cons f fs ih =>
    have hfield := (f.free_text hk hmodifier).separated hk.keyword (s := ";") (by decide) ih
    simpa using Free.sep_append hk.keyword hspace hfield

/-- A keyword that is neither a modifier nor that of classes does not stand in a source, if the
lexicon avoids it. -/
lemma free_source {k : Text} (hk : L.Avoids k) (hmodifier : k ∉ modifiers) (hclass : k ≠ "class")
    (cs : List (DataClass L)) : Free k (source (cs.map printed)) := by
  have hkeyword := hk.keyword
  have hlead : utf8 "class " = utf8 "class" ++ utf8 " " := by decide
  have htext : ∀ c : DataClass L, Free k c.printed.text := by
    intro c
    have hword : Free k (utf8 "class") := .of_word hkeyword (by decide) (Ne.symm hclass)
    have hname := free_of_isName hk.toReserves c.name.2
    have hfront := (hword.separated hkeyword (s := " ") (by decide) hname).separated hkeyword
      (s := " \x7b") (by decide) (free_bodyText hk hmodifier c)
    rw [text_printed, front, hlead]
    exact hfront.append_sep hkeyword (by decide)
  have h := Free.flatMap_sep hkeyword (fun c (_ : c ∈ cs) => htext c) (s := "\n") (by decide) .nil
  rw [List.append_nil] at h
  simpa [source, List.flatMap_map] using h

/-! ### Lines -/

/-- A class is printed on a normal line. -/
lemma isNormalLine_text (h : L.Spells isLineByte) (c : DataClass L) :
    IsNormalLine c.printed.text := by
  have hbytes : c.printed.bodyText.all isLineByte := by
    have hspace : isLineByte (ascii ' ') := by decide
    have hsemicolon : (utf8 ";").all isLineByte := by decide
    simp [bodyText_printed, List.all_flatMap, hspace, hsemicolon, FieldSyntax.bytes_text h]
  have hnested : Nested ⟨[], []⟩ (· == ascii '/') c.printed.bodyText := by
    have hcomma : ∀ b, (b == ascii '/') = true → (b == ascii '/' && b != ascii ',') = true := by
      simp only [beq_iff_eq]
      rintro b rfl
      decide
    have hend : Nested ⟨[], []⟩ (· == ascii '/') (utf8 ";") := .of_plain (by decide)
    rw [bodyText_printed]
    refine Nested.append ?_ (.of_plain (by decide))
    induction c.fields with
    | nil => exact .nil
    | cons f fs ih =>
      have hfield := ((f.codedList_text _ _ suits_slash).weaken hcomma).append hend
      exact .byte (by decide) (by decide) (hfield.append ih)
  rw [text_printed, front]
  refine ⟨?_, rfl, ?_⟩
  · have hsigns : (utf8 "class ").all isLineByte ∧ (utf8 " \x7b").all isLineByte ∧
        [ascii '\x7d'].all isLineByte := by decide
    simp only [List.all_append, hsigns, hbytes, h.all_of_isWord (all_isWord_of_isName c.name.2),
      Bool.and_self]
  · have hlead := (Nested.of_plain (s := utf8 "class ") (by decide)).append
      (coded_of_isName c.name.2 _ _ suits_slash)
    exact ((hlead.append (.of_plain (by decide))).append hnested).append (.of_plain (by decide))

end DataClass

end DtoSchema.Declaration.Java
