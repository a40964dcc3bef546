import DtoSchema.Conversion
import DtoSchema.Proofs.Dialect.Dto

/-!
# The dialects agree

The two printings of a model are converted to the same code with the same diagnostics.

What is read from them is not the same: the Java printing says by an annotation that a value may be
missing, and annotations are recorded as they are written.  `Field.essence` forgets this difference.
The code depends on the essence of the fields only (`Schema.generate_congr`), merging commutes with
it since it keeps keys, and the fields of both printings have the same essence
(`Dto.FieldModel.essence_field`).
-/

namespace DtoSchema

open Text Source Declaration

/-! ### What the code depends on -/

/-- The field without the texts of its annotations, and with one place for whether the value may be
missing. -/
def Field.essence (f : Field) : Field :=
  { f with
    optional := f.optional || f.constraints.nullable
    constraints := { f.constraints with nullable := false, raw := [] } }

/-- A field has the key of its essence. -/
lemma Field.key_essence (f : Field) : f.essence.key = f.key := rfl

namespace Schema

/-- The text of a field depends on its essence. -/
lemma fieldText_essence (f : Field) (e : Expr) : fieldText f.essence e = fieldText f e := by
  have hrefine : refine e.text (some e.kind) f.essence.constraints =
      refine e.text (some e.kind) f.constraints := by
    cases e.kind <;> rfl
  have hoptional : (f.essence.optional || f.essence.constraints.nullable) =
      (f.optional || f.constraints.nullable) := Bool.or_false _
  simp only [fieldText, hrefine, hoptional]

/-- The block of a class depends on the essence of its fields. -/
lemma classBlock_essence (layout : Layout) (table : SymbolTable) (c : ClassDecl) :
    classBlock layout table (c.mapFields Field.essence) = classBlock layout table c := by
  have hline : ∀ f : Field, fieldLine layout f.essence
      (mapField layout table (c.mapFields Field.essence) f.essence).1 =
        fieldLine layout f (mapField layout table c f).1 := by
    intro f
    simp only [fieldLine, fieldText_essence, Field.key_essence]
    rfl
  simp only [classBlock, ClassDecl.mapFields, List.map_map]
  simp only [ClassDecl.mapFields] at hline
  simp [Function.comp_def, hline]

/-- The diagnostics of a class depend on the essence of its fields. -/
lemma classDiagnostics_essence (layout : Layout) (table : SymbolTable) (c : ClassDecl) :
    classDiagnostics layout table (c.mapFields Field.essence) =
      classDiagnostics layout table c := by
  simp only [classDiagnostics, ClassDecl.mapFields, List.flatMap_map]
  rfl

section Congr

variable {cs ds : List ClassDecl}
  (h : cs.map (ClassDecl.mapFields Field.essence) = ds.map (ClassDecl.mapFields Field.essence))

include h

/-- The names of classes depend on their essence. -/
lemma ofDecls_congr (enums : List EnumDecl) :
    SymbolTable.ofDecls cs enums = SymbolTable.ofDecls ds enums := by
  have hnames := congrArg (List.map ClassDecl.name) h
  simp only [List.map_map] at hnames
  have hcomp : ClassDecl.name ∘ ClassDecl.mapFields Field.essence = ClassDecl.name := rfl
  rw [hcomp] at hnames
  rw [SymbolTable.ofDecls, SymbolTable.ofDecls, hnames]

/-- The code of classes depends on their essence. -/
lemma generate_congr (layout : Layout) (table : SymbolTable) (enums : List EnumDecl) :
    generate layout table enums cs = generate layout table enums ds := by
  have hblocks := congrArg (List.map (classBlock layout table)) h
  simp only [List.map_map, Function.comp_def, classBlock_essence] at hblocks
  rw [generate, generate, blocks, blocks, hblocks]

/-- The diagnostics of classes depend on their essence. -/
lemma diagnostics_congr (layout : Layout) (table : SymbolTable) :
    diagnostics layout table cs = diagnostics layout table ds := by
  have hflat := congrArg (List.flatMap (classDiagnostics layout table)) h
  simp only [List.flatMap_map, classDiagnostics_essence] at hflat
  exact hflat

end Congr

end Schema

/-- What a normal source without enumerations is converted to, once its dialect is found. -/
lemma convert_auto (o : Options) {s : Text} (hnormal : normalize s = s) {dialect : Dialect}
    (hdialect : (Dialect.detect s).dialect = dialect) (henums : dialect.enums s = []) :
    convert { o with dialect := .auto } s =
      ⟨Schema.generate o.effectiveLayout (.ofDecls (dialect.classes s) []) [] (dialect.classes s),
        Schema.diagnostics o.effectiveLayout (.ofDecls (dialect.classes s) [])
          (dialect.classes s)⟩ := by
  subst hdialect
  simp only [convert, analyze, hnormal, Dialect.Choice.forced?, Analysis.ofText, henums]
  rfl

namespace Dto

/-! ### Annotations -/

/-- Bytes of the target are passed. -/
lemma dropTargetsFrom_pass (a t : Text) :
    Constraints.dropTargetsFrom a.length (a ++ t) = Constraints.dropTargetsFrom 0 t := by
  induction a with
  | nil => rfl
  | cons b a ih => simpa [Constraints.dropTargetsFrom] using ih

/-- Nothing is dropped where no annotation starts. -/
lemma dropTargetsFrom_append {s : Text} (h : ascii '@' ∉ s) (t : Text) :
    Constraints.dropTargetsFrom 0 (s ++ t) = s ++ Constraints.dropTargetsFrom 0 t := by
  induction s with
  | nil => rfl
  | cons b s ih =>
    obtain ⟨hb, hs⟩ : ascii '@' ≠ b ∧ ascii '@' ∉ s := by simpa using h
    simp [Constraints.dropTargetsFrom, utf8_fieldTarget, utf8_getTarget, List.isPrefixOf, hb, ih hs]

/-- The target `field` is dropped. -/
lemma dropTargetsFrom_field (t : Text) :
    Constraints.dropTargetsFrom 0 (utf8 "@field:" ++ t) =
      ascii '@' :: Constraints.dropTargetsFrom 0 t := by
  have htext : utf8 "@field:" ++ t = ascii '@' :: (utf8 "field:" ++ t) := rfl
  have hprefix : (utf8 "@field:").isPrefixOf (ascii '@' :: (utf8 "field:" ++ t)) :=
    List.isPrefixOf_iff_prefix.mpr ⟨t, rfl⟩
  rw [htext, Constraints.dropTargetsFrom, if_pos hprefix]
  exact congrArg _ (dropTargetsFrom_pass (utf8 "field:") t)

/-- No sign of an annotation stands behind the name of one. -/
lemma MarkModel.at_not_mem (a : MarkModel) :
    ascii '@' ∉ a.name.1 ++ a.java.parenthesized ++ utf8 " " := by
  have hat : isWord (ascii '@') = false := by decide
  have hname : ascii '@' ∉ a.name.1 := fun hmem =>
    absurd (List.all_eq_true.mp (all_isWord_of_isName a.name.2) _ hmem) (by simp [hat])
  have hparenthesized : ascii '@' ∉ a.java.parenthesized := by
    unfold MarkSyntax.parenthesized MarkModel.java
    cases a.arguments with
    | none => simp
    | some arguments =>
      have hopen : ascii '@' ∉ utf8 "(" := by decide
      have hclose : ascii '@' ∉ utf8 ")" := by decide
      have hspells : lexicon.Spells (· != ascii '@') :=
        spells_lexicon (fun _ hb => bne_iff_ne.mpr (ne_of_class hb (by decide))) (by decide)
      have harguments : ascii '@' ∉ Argument.texts arguments := fun hmem =>
        absurd (List.all_eq_true.mp (Argument.bytes hspells arguments) _ hmem) (by decide)
      simp [hopen, hclose, harguments]
  have hspace : ascii '@' ∉ utf8 " " := by decide
  simp [hname, hparenthesized, hspace]

/-- The annotations of the Kotlin printing without their targets are those of the Java printing. -/
lemma dropTargets_texts (marks : List MarkModel) :
    Constraints.dropTargets (MarkSyntax.texts (marks.map MarkModel.kotlin)) =
      MarkSyntax.texts (marks.map MarkModel.java) := by
  unfold Constraints.dropTargets
  induction marks with
  | nil => rfl
  | cons a marks ih =>
    have hnot : ascii '@' ∉ a.name.1 ++ a.java.parenthesized ++ utf8 " " := a.at_not_mem
    have hkotlin : MarkSyntax.texts ((a :: marks).map MarkModel.kotlin) = utf8 "@field:" ++
        (a.name.1 ++ a.java.parenthesized ++ utf8 " " ++
          MarkSyntax.texts (marks.map MarkModel.kotlin)) := by
      have hfield : utf8 "@field:" = utf8 "@" ++ utf8 "field" ++ utf8 ":" := by decide
      simp [MarkSyntax.texts, MarkSyntax.text, MarkModel.kotlin, MarkModel.java, prefixed,
        DottedName.text, DottedName.qualification, MarkSyntax.parenthesized, hfield]
    have hjava : MarkSyntax.texts ((a :: marks).map MarkModel.java) = ascii '@' ::
        (a.name.1 ++ a.java.parenthesized ++ utf8 " " ++
          MarkSyntax.texts (marks.map MarkModel.java)) := by
      simp [MarkSyntax.texts, MarkSyntax.text, MarkModel.java, prefixed, DottedName.text,
        DottedName.qualification, utf8_at]
    rw [hkotlin, hjava, dropTargetsFrom_field, dropTargetsFrom_append hnot, ih]

/-- The last segment of a name without dots is the name. -/
lemma MarkModel.simpleName_mark (a : MarkModel) : a.java.mark.simpleName = a.name.1 := by
  have hnot : ascii '.' ∉ a.name.1.reverse := by
    intro hmem
    have hword := List.all_eq_true.mp (all_isWord_of_isName a.name.2) _ (List.mem_reverse.mp hmem)
    exact absurd hword (by decide)
  have hname : a.java.mark.name = a.name.1 := by
    simp [MarkSyntax.mark, MarkModel.java, DottedName.text, DottedName.qualification]
  simp [Mark.simpleName, hname, cutLast?, cut?_eq_none hnot]

/-- What annotations say does not depend on the dialect that they are printed in. -/
lemma ofKotlin_texts (marks : List MarkModel) :
    Constraints.ofKotlin (MarkSyntax.texts (marks.map MarkModel.kotlin)) =
      ((marks.map MarkModel.java).map MarkSyntax.mark).foldl Constraints.add {} := by
  have hjson : ((marks.map MarkModel.java).map MarkSyntax.mark).findSome?
      Constraints.jsonNameOf? = none := by
    rw [List.findSome?_eq_none_iff]
    intro m hm
    simp only [List.map_map, List.mem_map, Function.comp_apply] at hm
    obtain ⟨a, -, rfl⟩ := hm
    simp [Constraints.jsonNameOf?, a.simpleName_mark, a.name_ne]
  simp only [Constraints.ofKotlin, dropTargets_texts, Constraints.ofJava, MarkSyntax.readAll_texts,
    hjson]

/-- The annotation that the value may be missing says just that. -/
lemma add_nullableMark (c : Constraints) :
    c.add nullableMark.mark =
      { c with raw := c.raw ++ [nullableMark.text], nullable := true } := by
  have hname : nullableMark.mark.simpleName = "Nullable" := by decide
  have htarget : nullableMark.mark.target = [] := rfl
  simp only [Constraints.add, htarget, List.isEmpty_nil, if_true, Constraints.apply, hname]
  rfl

/-! ### Fields -/

/-- The field as it is read from the Java printing. -/
lemma FieldModel.fields_java (f : FieldModel) : f.java.fields =
    [Field.declare f.name.1 f.type.text f.java.constraints.nullable f.java.constraints] := by
  simp [Java.FieldSyntax.fields, Java.arrayOf, FieldModel.java, f.type_isOptional]

/-- The field of both printings has the same essence. -/
lemma FieldModel.essence_field (f : FieldModel) :
    f.java.fields.map Field.essence = (f.kotlin.field?.map Field.essence).toList := by
  generalize hc : ((f.marks.map MarkModel.java).map MarkSyntax.mark).foldl Constraints.add {} = c
  have hkotlin : f.kotlin.field? = some (Field.declare f.name.1 f.type.text
      (f.optional || c.nullable) c) := by
    simp only [FieldModel.kotlin, Kotlin.Param.field?, Kotlin.PropertySyntax.field, ofKotlin_texts,
      hc]
  rw [hkotlin, f.fields_java]
  cases hoptional : f.optional with
  | false =>
    have hjava : f.java.constraints = c := by
      simp [Java.FieldSyntax.constraints, FieldModel.java, hoptional, ← hc]
    simp [hjava]
  | true =>
    have hjava : f.java.constraints =
        { c with raw := c.raw ++ [nullableMark.text], nullable := true } := by
      rw [← add_nullableMark, ← hc]
      simp [Java.FieldSyntax.constraints, FieldModel.java, hoptional]
    rw [hjava]
    rfl

/-- The fields of both printings of a model have the same essence. -/
lemma essence_fields (fs : List FieldModel) :
    (fs.flatMap fun f => f.java.fields).map Field.essence =
      ((fs.map FieldModel.kotlin).filterMap Kotlin.Param.field?).map Field.essence := by
  induction fs with
  | nil => rfl
  | cons f fs ih =>
    rw [List.flatMap_cons, List.map_append, f.essence_field, ih, List.map_cons]
    cases hfield : f.kotlin.field? with
    | none => simp [hfield]
    | some g => simp [hfield]

/-! ### Classes -/

/-- The classes of both printings have the same essence. -/
lemma essence_decl (d : Dto) :
    d.java.decl.mapFields Field.essence = d.kotlin.decl.mapFields Field.essence := by
  have hjava : d.java.members.flatMap Java.Member.fields =
      d.fields.flatMap fun f => f.java.fields := by
    simp [java, List.flatMap_map, Java.Member.fields]
  have hkotlin : d.kotlin.fields = (d.fields.map FieldModel.kotlin).filterMap
      Kotlin.Param.field? := by
    simp [kotlin, Kotlin.ClassSyntax.fields]
  simp only [Java.ClassSyntax.decl, Kotlin.ClassSyntax.decl, ClassDecl.mapFields,
    ← keepFirst_map Field.key_essence, hjava, hkotlin, essence_fields]
  rfl

/-- The classes that are read from both printings have the same essence. -/
lemma essence_classes (ds : List Dto) :
    (Java.classes (javaSource ds)).map (ClassDecl.mapFields Field.essence) =
      (Kotlin.classes (kotlinSource ds)).map (ClassDecl.mapFields Field.essence) := by
  have hclear : ∀ c ∈ ds.map kotlin, c.IsClear := by
    intro c hc
    obtain ⟨d, -, rfl⟩ := List.mem_map.mp hc
    refine ⟨fun q hq => ?_, by simp [kotlin]⟩
    -- no parameter of the printing has a default value
    obtain ⟨f, -, rfl⟩ : ∃ f ∈ d.fields, f.kotlin = q := by simpa [kotlin] using hq
    exact Or.inl rfl
  rw [javaSource, Java.classes_source speaks_java, kotlinSource,
    Kotlin.classes_source speaks_kotlin hclear, ← coalesce_mapFields Field.key_essence,
    ← coalesce_mapFields Field.key_essence, List.map_map, List.map_map, List.map_map, List.map_map]
  exact congrArg coalesce (List.map_congr_left fun d _ => d.essence_decl)

/-! ### Conversion -/

/-- The Java printing is normal and found to be in the Java dialect. -/
lemma analyze_javaSource (ds : List Dto) :
    normalize (javaSource ds) = javaSource ds ∧
      (Dialect.detect (javaSource ds)).dialect = .java := by
  have hlines : javaSource ds = unlines ((ds.map java).map Java.ClassSyntax.text) := by
    simp [javaSource, Java.source, unlines, List.flatMap_map]
  refine ⟨?_, Dialect.detect_of_free fun k hk => free_javaSource hk ds⟩
  rw [hlines, List.map_map]
  exact normalize_unlines isNormalLine_java ds

/-- The Kotlin printing is normal and, if there is a class, found to be in the Kotlin dialect. -/
lemma analyze_kotlinSource (d : Dto) (ds : List Dto) :
    normalize (kotlinSource (d :: ds)) = kotlinSource (d :: ds) ∧
      (Dialect.detect (kotlinSource (d :: ds))).dialect = .kotlin := by
  have hlines : kotlinSource (d :: ds) =
      unlines (((d :: ds).map kotlin).map Kotlin.ClassSyntax.text) := by
    simp [kotlinSource, Kotlin.source, unlines, List.flatMap_map]
  refine ⟨?_, ?_⟩
  · rw [hlines, List.map_map]
    exact normalize_unlines isNormalLine_kotlin (d :: ds)
  · have hstart : kotlinSource (d :: ds) = utf8 "data class " ++ (d.name.1 ++
        d.kotlin.constructorText ++ utf8 "\n" ++ kotlinSource ds) := by
      have hdata : utf8 "data class " = utf8 "data " ++ utf8 "class " := by decide
      simp [kotlinSource, Kotlin.source, kotlin, Kotlin.ClassSyntax.text, Kotlin.ClassSyntax.lead,
        Kotlin.ClassSyntax.blockText, onlyIf, hdata]
    rw [hstart]
    exact Dialect.detect_data_class _

/-- Both printings of a model are converted to the same code, with the same diagnostics. -/
theorem convert_javaSource_eq_convert_kotlinSource (o : Options) (ds : List Dto) :
    convert { o with dialect := .auto } (javaSource ds) =
      convert { o with dialect := .auto } (kotlinSource ds) := by
  cases ds with
  | nil => rfl
  | cons d ds =>
    obtain ⟨hjava, hjavaDialect⟩ := analyze_javaSource (d :: ds)
    obtain ⟨hkotlin, hkotlinDialect⟩ := analyze_kotlinSource d ds
    have hessence := essence_classes (d :: ds)
    rw [convert_auto o hjava hjavaDialect
        (enums_eq_nil (free_javaSource (by decide) (d :: ds)) _),
      convert_auto o hkotlin hkotlinDialect (enums_eq_nil (free_kotlinSource (d :: ds)) _)]
    simp only [Dialect.classes, Schema.ofDecls_congr hessence, Schema.generate_congr hessence,
      Schema.diagnostics_congr hessence]

end Dto

end DtoSchema
