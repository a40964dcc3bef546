import DtoSchema.Conversion
import DtoSchema.Proofs.Declaration.Fields
import DtoSchema.Proofs.Declaration.Names

/-!
# Well-formed declarations

A source may be any text, also one that is cut off, or one in which no bracket matches another.
Whatever it is, the declarations that are read from it are well formed (`wellFormed_analyze`): names
are identifiers, the names of classes and the keys in a class differ, an enumeration has a constant,
and a field is written and marked as optional as its annotations say.

A field of either dialect comes from `Field.declare`, given a name that was read as an identifier
and an optionality that regards the annotations.
-/

namespace DtoSchema

open Text Source Declaration

/-- The field is named by an identifier, and its annotations have the effect that they should. -/
structure Field.WellFormed (f : Field) : Prop where
  /-- The declared name is an identifier. -/
  name : isIdent f.name
  /-- The name that annotations give is the one under which the field is written. -/
  renamed : f.constraints.rename ≠ [] → f.emitName = f.constraints.rename
  /-- Without such a name the field is written under its declared name. -/
  unrenamed : f.constraints.rename = [] → f.emitName = f.name
  /-- A value that may be missing according to the annotations is optional. -/
  optional : f.constraints.nullable → f.optional

/-- The class is named by an identifier, and so are its fields, no two of which have the same key. -/
structure ClassDecl.WellFormed (c : ClassDecl) : Prop where
  name : isIdent c.name
  fields : ∀ f ∈ c.fields, f.WellFormed
  keys : (c.fields.map Field.key).Nodup

/-- The enumeration is named by an identifier, and so are its constants, of which there is one. -/
structure EnumDecl.WellFormed (e : EnumDecl) : Prop where
  name : isIdent e.name
  inhabited : e.values ≠ []
  values : ∀ v ∈ e.values, isIdent v

/-- The declarations are well formed, and the table holds their names and no other ones. -/
structure Analysis.WellFormed (a : Analysis) : Prop where
  classes : ∀ c ∈ a.classes, c.WellFormed
  names : (a.classes.map ClassDecl.name).Nodup
  enums : ∀ e ∈ a.enums, e.WellFormed
  hasClass_iff : ∀ n, a.table.hasClass n ↔ ∃ c ∈ a.classes, c.name = n
  hasEnum_iff : ∀ n, a.table.hasEnum n ↔ ∃ e ∈ a.enums, e.name = n
  mem_names_iff : ∀ n, n ∈ a.table.names ↔
    (∃ c ∈ a.classes, c.name = n) ∨ ∃ e ∈ a.enums, e.name = n

/-! ### Fields -/

lemma Field.wellFormed_declare {name : Text} (hname : isIdent name) (type : Text) {optional : Bool}
    {constraints : Constraints} (h : constraints.nullable → optional) :
    (Field.declare name type optional constraints).WellFormed where
  name := hname
  renamed hne := if_neg (by simpa [declare] using hne)
  unrenamed heq := if_pos (by simpa [declare] using heq)
  optional := h

lemma Declaration.Java.wellFormed_of_mem_statementFields (s : Text) (f : Field)
    (h : f ∈ statementFields s) : f.WellFormed := by
  obtain ⟨marks, type, name, pairs, hname, -, rfl⟩ := exists_of_mem_statementFields h
  exact Field.wellFormed_declare hname _ fun hnullable => by simp [hnullable]

lemma Declaration.Kotlin.wellFormed_of_property? (s : Text) (f : Field)
    (h : property? s = some f) : f.WellFormed := by
  obtain ⟨marks, type, name, questioned, hname, rfl⟩ := exists_of_property? h
  exact Field.wellFormed_declare hname _ fun hnullable => by simp [hnullable]

/-! ### Enumerations -/

namespace Declaration

lemma isIdent_of_mem_enumValues {body v : Text} (h : v ∈ enumValues body) : isIdent v := by
  obtain ⟨hmem, hne⟩ := List.mem_filter.mp h
  obtain ⟨item, -, rfl⟩ := List.mem_map.mp hmem
  exact isIdent_leadingIdent (by simpa using hne)

/-- An enumeration has the constants of its body, of which there is one. -/
lemma values_of_mem_enums {header : Option UInt8 → Text → Option (Text × ℕ)} {s : Text}
    {e : EnumDecl} (h : e ∈ enums header s) : e.values ≠ [] ∧ ∀ v ∈ e.values, isIdent v := by
  obtain ⟨o, -, he⟩ := List.mem_filterMap.mp h
  split at he
  · simp at he
  · split at he
    · simp at he
    · simp at he
    · next values hne hvalues =>
      obtain ⟨body, -, rfl⟩ := Option.map_eq_some_iff.mp hvalues
      obtain rfl := Option.some.inj he
      exact ⟨hne, fun v hv => isIdent_of_mem_enumValues hv⟩

end Declaration

/-! ### Both dialects -/

namespace Dialect

lemma wellFormed_of_mem_enums (dialect : Dialect) {s : Text} {e : EnumDecl}
    (h : e ∈ dialect.enums s) : e.WellFormed := by
  have hvalues : e.values ≠ [] ∧ ∀ v ∈ e.values, isIdent v := by
    cases dialect <;> exact values_of_mem_enums h
  exact ⟨dialect.isIdent_of_mem_enums h, hvalues.1, hvalues.2⟩

lemma wellFormed_of_mem_classes (dialect : Dialect) {s : Text} {c : ClassDecl}
    (h : c ∈ dialect.classes s) : c.WellFormed := by
  have hkeeps : c.Keeps Field.WellFormed :=
    dialect.keeps_classes (fun _ => Java.wellFormed_of_mem_statementFields)
      (fun _ => Kotlin.wellFormed_of_property?) s c h
  exact ⟨dialect.isIdent_of_mem_classes h, hkeeps.fields, hkeeps.keys⟩

/-- The classes of a source have different names. -/
lemma nodup_name_classes (dialect : Dialect) (s : Text) :
    ((dialect.classes s).map ClassDecl.name).Nodup := by
  cases dialect <;> exact nodup_name_coalesce _

end Dialect

/-- Every member of a table is there under the name of a declaration. -/
lemma SymbolTable.hasClass_ofDecls (classes : List ClassDecl) (enums : List EnumDecl) (n : Text) :
    (SymbolTable.ofDecls classes enums).hasClass n ↔ ∃ c ∈ classes, c.name = n := by
  simp [SymbolTable.ofDecls, SymbolTable.ofNames, SymbolTable.hasClass]

lemma SymbolTable.hasEnum_ofDecls (classes : List ClassDecl) (enums : List EnumDecl) (n : Text) :
    (SymbolTable.ofDecls classes enums).hasEnum n ↔ ∃ e ∈ enums, e.name = n := by
  simp [SymbolTable.ofDecls, SymbolTable.ofNames, SymbolTable.hasEnum]

lemma Analysis.wellFormed_ofText (dialect : Dialect) (forced : Bool) (hints : List Dialect.Hint)
    (s : Text) : (Analysis.ofText dialect forced hints s).WellFormed where
  classes _ h := dialect.wellFormed_of_mem_classes h
  names := dialect.nodup_name_classes s
  enums _ h := dialect.wellFormed_of_mem_enums h
  hasClass_iff := SymbolTable.hasClass_ofDecls _ _
  hasEnum_iff := SymbolTable.hasEnum_ofDecls _ _
  mem_names_iff n := by
    have hclass := SymbolTable.hasClass_ofDecls (dialect.classes s) (dialect.enums s) n
    have henum := SymbolTable.hasEnum_ofDecls (dialect.classes s) (dialect.enums s) n
    simp only [SymbolTable.hasClass, SymbolTable.hasEnum, decide_eq_true_eq] at hclass henum
    rw [Analysis.ofText, SymbolTable.names, List.mem_append, hclass, henum]

/-- The dialect of a source is chosen or found, and then its declarations are read. -/
lemma exists_analyze_eq_ofText (choice : Dialect.Choice) (source : Text) :
    ∃ dialect forced hints,
      analyze choice source = .ofText dialect forced hints (Source.normalize source) := by
  unfold analyze
  cases choice.forced? with
  | some dialect => exact ⟨dialect, true, [], rfl⟩
  | none => exact ⟨_, false, _, rfl⟩

/-- Whatever text is given, and whether its dialect is chosen or found, the declarations that are
read from it are well formed. -/
theorem wellFormed_analyze (choice : Dialect.Choice) (source : Text) :
    (analyze choice source).WellFormed := by
  obtain ⟨dialect, forced, hints, heq⟩ := exists_analyze_eq_ofText choice source
  rw [heq]
  exact Analysis.wellFormed_ofText dialect forced hints _

end DtoSchema
