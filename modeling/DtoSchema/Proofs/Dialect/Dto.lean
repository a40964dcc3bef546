import DtoSchema.Proofs.Declaration.Java.DataClass
import DtoSchema.Proofs.Declaration.Kotlin.Class
import DtoSchema.Proofs.Dialect.Detection

/-!
# Models that both dialects can express

A `Dto` is a class of fields that have a name, a type, annotations and a flag for missing values.
It is printed as a class of the Java dialect, where the flag is an annotation, and as a data class
of the Kotlin dialect, where it is a question mark and annotations have the target `field`.

Both printings are normal sources, and the dialect of each is found: no keyword of the Kotlin
dialect stands in the Java printing, and the Kotlin printing starts with a data class.
-/

namespace DtoSchema

open Text Source Declaration

/-! ### Models -/

namespace Dto

/-- The words of both dialects are no names; string literals hold letters, digits, underscores and
hyphens. -/
def lexicon : Lexicon where
  reserved := Java.modifiers ++ Java.typeWords ++ Kotlin.modifiers ++ declarationWords
  accepts s := s.all fun b => isWord b || b == ascii '-'

/-- An annotation of a field. -/
structure MarkModel where
  /-- The name. -/
  name : lexicon.Name
  /-- It is none of those that only one of the dialects has. -/
  name_ne : name.1 ≠ "Json"
  /-- The arguments, if there are parentheses. -/
  arguments : Option (List (Argument lexicon))

/-- A field of a model. -/
structure FieldModel where
  /-- The name. -/
  name : lexicon.Name
  /-- The type. -/
  type : TypeSyntax lexicon
  /-- The type does not itself say that the value may be missing. -/
  type_isOptional : type.isOptional = false
  /-- The value may be missing. -/
  optional : Bool
  /-- The annotations in order. -/
  marks : List MarkModel

end Dto

/-- A class of data. -/
structure Dto where
  /-- The name. -/
  name : Dto.lexicon.Name
  /-- The fields in order. -/
  fields : List Dto.FieldModel

namespace Dto

/-! ### The Java printing -/

/-- The annotation in the Java dialect. -/
def MarkModel.java (a : MarkModel) : MarkSyntax lexicon := ⟨none, ⟨[], a.name⟩, a.arguments⟩

/-- The annotation that the value may be missing. -/
def nullableMark : MarkSyntax lexicon := ⟨none, ⟨[], ⟨"Nullable", by decide⟩⟩, none⟩

/-- The field in the Java dialect. -/
def FieldModel.java (f : FieldModel) : Java.FieldSyntax lexicon where
  marks := f.marks.map MarkModel.java ++ if f.optional then [nullableMark] else []
  modifiers := []
  type := f.type
  first := ⟨f.name, 0⟩
  more := []

/-- The class in the Java dialect. -/
def java (d : Dto) : Java.ClassSyntax lexicon := ⟨d.name, d.fields.map fun f => .field f.java⟩

/-- A source of classes in the Java dialect. -/
def javaSource (ds : List Dto) : Text := Java.source (ds.map java)

/-! ### The Kotlin printing -/

/-- The annotation in the Kotlin dialect. -/
def MarkModel.kotlin (a : MarkModel) : MarkSyntax lexicon :=
  ⟨some ⟨"field", by decide⟩, ⟨[], a.name⟩, a.arguments⟩

/-- The field in the Kotlin dialect. -/
def FieldModel.kotlin (f : FieldModel) : Kotlin.Param lexicon :=
  .property (f.marks.map MarkModel.kotlin) ⟨[], false, ⟨f.name, f.type, f.optional, none⟩⟩

/-- The class in the Kotlin dialect. -/
def kotlin (d : Dto) : Kotlin.ClassSyntax lexicon :=
  ⟨true, d.name, some (d.fields.map FieldModel.kotlin), none⟩

/-- A source of classes in the Kotlin dialect. -/
def kotlinSource (ds : List Dto) : Text := Kotlin.source (ds.map kotlin)

/-- A model in both printings. -/
example :
    let id : FieldModel := ⟨⟨"id", by decide⟩, .name ⟨[], ⟨"Long", by decide⟩⟩, rfl, false, []⟩
    let tags : FieldModel := ⟨⟨"tags", by decide⟩, .generic ⟨[], ⟨"List", by decide⟩⟩
      (.last (.name ⟨[], ⟨"String", by decide⟩⟩)), by decide, true, [⟨⟨"Size", by decide⟩, by decide,
        some [⟨some ⟨"max", by decide⟩, .number false ⟨"9", by decide⟩⟩]⟩]⟩
    let ds : List Dto := [⟨⟨"Note", by decide⟩, [id, tags]⟩]
    javaSource ds = utf8 "class Note \x7b Long id; @Size(max = 9) @Nullable List<String> tags; \x7d\n" ∧
    kotlinSource ds =
      utf8 "data class Note(val id: Long, @field:Size(max = 9) val tags: List<String>?)\n" := by
  decide +kernel

/-! ### Keywords -/

/-- No literal holds a keyword with a gap behind it, since no literal holds a gap. -/
lemma avoids_lexicon {k : Text} (hk : isKeyword k) (hdigit : k.head?.any isDigit = false)
    (hreserved : k ∈ lexicon.reserved) : lexicon.Avoids k where
  keyword := hk
  reserved := hreserved
  not_digit := hdigit
  literal s hs := by
    have hbytes : ∀ b, (isWord b || b == ascii '-') = true → (!isGap b) = true := by
      simp only [Bool.or_eq_true, beq_iff_eq]
      rintro b (hb | rfl)
      · simp [isGap_of_isInk (isInk_of_isWord hb)]
      · decide
    have hquote : (!isGap (ascii '"')) = true := by decide
    simp only [Lexicon.isString, lexicon, Bool.and_eq_true] at hs
    refine .of_not_gap hk ?_ ?_
    · simp only [List.all_cons, List.all_append, hquote, Bool.true_and, Bool.and_eq_true]
      exact ⟨all_mono hbytes hs.2, by decide⟩
    · rw [← List.cons_append, List.getLast?_concat]
      decide

/-- The names are names of the Java dialect. -/
lemma speaks_java : Java.Speaks lexicon where
  modifiers w hw := by simp [lexicon, hw]
  typeWords w hw := by simp [lexicon, hw]
  avoids := avoids_lexicon (by decide) (by decide) (by decide)

/-- The names are names of the Kotlin dialect. -/
lemma speaks_kotlin : Kotlin.Speaks lexicon where
  modifiers w hw := by simp [lexicon, hw]
  declarationWords w hw := by simp [lexicon, hw]
  avoids := avoids_lexicon (by decide) (by decide) (by decide)

/-- The keywords that speak for the Kotlin dialect are avoided. -/
lemma avoids_signalWords {k : Text} (hk : k ∈ Dialect.signalWords) : lexicon.Avoids k := by
  have hall : Dialect.signalWords.all fun k =>
      isKeyword k && !k.head?.any isDigit && decide (k ∈ lexicon.reserved) := by decide
  have h := List.all_eq_true.mp hall k hk
  simp only [Bool.and_eq_true, Bool.not_eq_true', decide_eq_true_eq] at h
  exact avoids_lexicon h.1.1 h.1.2 h.2

/-- The model as a class of fields of the Java dialect. -/
def dataClass (d : Dto) : Java.DataClass lexicon := ⟨d.name, d.fields.map FieldModel.java⟩

/-- The Java printing is that of a class of fields. -/
lemma java_eq_printed (d : Dto) : d.java = d.dataClass.printed := by
  simp [java, dataClass, Java.DataClass.printed, Function.comp_def]

/-- No keyword of the Kotlin dialect stands in the Java printing. -/
lemma free_javaSource {k : Text} (hk : k ∈ Dialect.signalWords) (ds : List Dto) :
    Free k (javaSource ds) := by
  have hwords : Dialect.signalWords.all fun k =>
      decide (k ∉ Java.modifiers) && decide (k ≠ "class") := by decide
  have hne := List.all_eq_true.mp hwords k hk
  simp only [Bool.and_eq_true, decide_eq_true_eq] at hne
  have hprinted : ds.map java = (ds.map dataClass).map Java.DataClass.printed := by
    rw [List.map_map]
    exact List.map_congr_left fun d _ => d.java_eq_printed
  rw [javaSource, hprinted]
  exact Java.DataClass.free_source (avoids_signalWords hk) hne.1 hne.2 _

/-- No enumeration is declared in the Kotlin printing. -/
lemma free_kotlinSource (ds : List Dto) : Free "enum" (kotlinSource ds) := by
  have havoids := avoids_signalWords (k := "enum") (by decide)
  have hkeyword := havoids.keyword
  have hclass : ∀ d : Dto, Free "enum" d.kotlin.text := by
    intro d
    have hdata : Free "enum" (utf8 "data") := .of_word hkeyword (by decide) (by decide)
    have hword : Free "enum" (utf8 "class") := .of_word hkeyword (by decide) (by decide)
    have hname := free_of_isName havoids.toReserves d.name.2
    have hparams := Kotlin.free_paramsText havoids (by decide) (d.fields.map FieldModel.kotlin)
    have htail := hname.append hparams (apart_sep (s := [ascii '(']) (by decide) _ _)
    have h := (hdata.separated hkeyword (s := " ") (by decide) hword).separated hkeyword
      (s := " ") (by decide) htail
    have hdata' : utf8 "data " = utf8 "data" ++ utf8 " " := by decide
    have hclass : utf8 "class " = utf8 "class" ++ utf8 " " := by decide
    simpa [Kotlin.ClassSyntax.text, Kotlin.ClassSyntax.lead, Kotlin.ClassSyntax.constructorText,
      Kotlin.ClassSyntax.blockText, kotlin, onlyIf, hdata', hclass] using h
  have h := Free.flatMap_sep hkeyword (fun d (_ : d ∈ ds) => hclass d) (s := "\n") (by decide) .nil
  rw [List.append_nil] at h
  simpa [kotlinSource, Kotlin.source, List.flatMap_map] using h

/-! ### Bytes -/

/-- Names and the signs between them suffice to write arguments; literals hold nothing else. -/
lemma spells_lexicon {p : UInt8 → Bool} (hpart : ∀ b, isNamePart b = true → p b = true)
    (hsigns : (utf8 ",=-\" ").all p) : lexicon.Spells p where
  part := hpart
  signs := hsigns
  literal s hs := by
    simp only [Lexicon.isString, lexicon, Bool.and_eq_true] at hs
    refine List.all_eq_true.mpr fun b hb => ?_
    have hbyte := List.all_eq_true.mp hs.2 b hb
    simp only [Bool.or_eq_true, beq_iff_eq] at hbyte
    rcases hbyte with hbyte | rfl
    · exact hpart b (isNamePart_of_isWord hbyte)
    · exact List.all_eq_true.mp hsigns _ (by decide)

/-- The bytes of a line suffice to write arguments. -/
lemma spells_isLineByte : lexicon.Spells isLineByte :=
  spells_lexicon (isLineByte_of_class (by decide)) (by decide)

/-- The bytes of a type in a line. -/
lemma bytes_type (t : TypeSyntax lexicon) : t.text.all isLineByte :=
  all_mono (isLineByte_of_class (by decide)) t.isTypeText.bytes

/-- A class of the Java printing is a normal line. -/
lemma isNormalLine_java (d : Dto) : IsNormalLine d.java.text := by
  rw [java_eq_printed]
  exact d.dataClass.isNormalLine_text spells_isLineByte

/-- A class of the Kotlin printing is a normal line. -/
lemma isNormalLine_kotlin (d : Dto) : IsNormalLine d.kotlin.text := by
  have hfield : ∀ f : FieldModel, f.kotlin.text.all isLineByte := by
    intro f
    have hname := spells_isLineByte.all_of_isWord (all_isWord_of_isName f.name.2)
    have hmarks := MarkSyntax.bytes spells_isLineByte (by decide) (f.marks.map MarkModel.kotlin)
    have hmark : (onlyIf f.optional "?").all isLineByte := by cases f.optional <;> decide
    have htext : f.kotlin.text = MarkSyntax.texts (f.marks.map MarkModel.kotlin) ++
        (utf8 "val" ++ utf8 " " ++ (f.name.1 ++ utf8 ": " ++
          (f.type.text ++ onlyIf f.optional "?"))) := by
      simp [FieldModel.kotlin, Kotlin.Param.text, Kotlin.PropertySyntax.text, modifierTexts,
        Kotlin.PropertySyntax.declaration, Kotlin.PropertySyntax.keyword, Kotlin.TypedName.text,
        Kotlin.TypedName.declared, Kotlin.declaredType, Kotlin.TypedName.defaultText]
    rw [htext]
    simp only [List.all_append, hmarks, bytes_type, hname, hmark, Bool.true_and, Bool.and_true]
    decide
  have hparams : (join ", " ((d.fields.map FieldModel.kotlin).map Kotlin.Param.text)).all
      isLineByte := by
    refine all_join (by decide) fun q hq => ?_
    simp only [List.map_map, List.mem_map, Function.comp_apply] at hq
    obtain ⟨f, -, rfl⟩ := hq
    exact hfield f
  have hname := spells_isLineByte.all_of_isWord (all_isWord_of_isName d.name.2)
  have htext : d.kotlin.text = utf8 "data class " ++ d.name.1 ++ ascii '(' ::
      (join ", " ((d.fields.map FieldModel.kotlin).map Kotlin.Param.text) ++ [ascii ')']) := by
    have hdata : utf8 "data class " = utf8 "data " ++ utf8 "class " := by decide
    simp [kotlin, Kotlin.ClassSyntax.text, Kotlin.ClassSyntax.lead, onlyIf,
      Kotlin.ClassSyntax.constructorText, Kotlin.ClassSyntax.blockText, Kotlin.paramsText, hdata]
  rw [htext]
  refine ⟨?_, rfl, ?_⟩
  · have hdata : (utf8 "data class ").all isLineByte := by decide
    have hparen : isLineByte (ascii '(') ∧ isLineByte (ascii ')') := by decide
    simp only [List.all_append, List.all_cons, List.all_nil, hdata, hname, hparams, hparen,
      Bool.and_self]
  · have hlead := (Nested.of_plain (s := utf8 "data class ") (by decide)).append
      (coded_of_isName d.name.2 _ _ suits_slash)
    exact hlead.append (Kotlin.coded_paramsText (d.fields.map FieldModel.kotlin) _ _ suits_slash)

end Dto

end DtoSchema
