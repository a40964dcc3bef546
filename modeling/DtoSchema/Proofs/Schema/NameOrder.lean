import Mathlib
import DtoSchema.Conversion
import DtoSchema.Proofs.Naming.Ranking
import DtoSchema.Proofs.Schema.Parts

/-!
# Conversion does not depend on the order of the declared names

The mapping of types asks a table of declared names three things: whether a name is that of an
enumeration, whether it is that of a class, and what resembles a name.  Only the last question goes
through all names, and the answer to it does not depend on their order.  So tables with the same
names give the same mapping of every type (`Resolver.mapWithin_congr`), the same code and the same
diagnostics, whatever order they hold the names in.
-/

namespace DtoSchema

/-- Two tables hold the same names, each in an order of its own. -/
structure SymbolTable.Reorders (t u : SymbolTable) : Prop where
  /-- The same classes. -/
  classes : t.classes.Perm u.classes
  /-- The same enumerations. -/
  enums : t.enums.Perm u.enums

namespace SymbolTable.Reorders

variable {t u : SymbolTable}

lemma hasClass_eq (h : t.Reorders u) (n : Text) : t.hasClass n = u.hasClass n := by
  simp [hasClass, h.classes.mem_iff]

lemma hasEnum_eq (h : t.Reorders u) (n : Text) : t.hasEnum n = u.hasEnum n := by
  simp [hasEnum, h.enums.mem_iff]

lemma names_perm (h : t.Reorders u) : t.names.Perm u.names :=
  h.classes.append h.enums

/-- Reordered tables suggest the same names in the same order. -/
lemma suggest_eq (h : t.Reorders u) (target : Text) :
    Naming.suggest target t.names = Naming.suggest target u.names :=
  Naming.suggest_eq_of_perm h.names_perm

end SymbolTable.Reorders

namespace Schema

/-- Names resolve to the same under reordered tables. -/
lemma Resolver.leaf_reorders {t u : SymbolTable} (h : t.Reorders u) (overrides : List (Text × Text))
    (name : Text) : (Resolver.mk t overrides).leaf name = (Resolver.mk u overrides).leaf name := by
  simp only [Resolver.leaf, Resolver.override?, h.hasEnum_eq, h.hasClass_eq, h.suggest_eq]

/-- Types whose names resolve to the same are mapped to the same, level by level. -/
lemma Resolver.mapWithin_congr {r r' : Resolver} (hleaf : ∀ name, r.leaf name = r'.leaf name)
    (root : Text) (allowance : ℕ) (s : Text) :
    r.mapWithin root allowance s = r'.mapWithin root allowance s := by
  induction allowance generalizing s with
  | zero => rfl
  | succ allowance ih =>
    rw [mapWithin_succ, mapWithin_succ]
    congr 1
    cases partsOf s with
    | name s => exact hleaf s
    | list member => exact congrArg Mapped.array (ih member)
    | map key value =>
      change mapRecord key _ _ = mapRecord key _ _
      rw [ih key, ih value]

/-- Fields are mapped to the same under reordered tables. -/
lemma mapField_reorders {t u : SymbolTable} (h : t.Reorders u) (layout : Layout) (c : ClassDecl)
    (f : Field) : mapField layout t c f = mapField layout u c f := by
  have hmap := Resolver.mapWithin_congr (Resolver.leaf_reorders h layout.overrides)
    (Text.collapse f.type) (depthLimit layout.maxDepth + 1) f.type
  simp only [mapField, Resolver.map, hmap]

/-- Reordered tables give the same code. -/
lemma generate_reorders {t u : SymbolTable} (h : t.Reorders u) (layout : Layout)
    (enums : List EnumDecl) (classes : List ClassDecl) :
    generate layout t enums classes = generate layout u enums classes := by
  have hblock : ∀ c, classBlock layout t c = classBlock layout u c := by
    intro c
    simp only [classBlock, mapField_reorders h]
  simp only [generate, blocks, funext hblock]

/-- Reordered tables give the same diagnostics. -/
lemma diagnostics_reorders {t u : SymbolTable} (h : t.Reorders u) (layout : Layout)
    (classes : List ClassDecl) : diagnostics layout t classes = diagnostics layout u classes := by
  have hclass : ∀ c, classDiagnostics layout t c = classDiagnostics layout u c := by
    intro c
    simp only [classDiagnostics, mapField_reorders h]
  simp only [diagnostics, funext hclass]

end Schema

open Naming

/-- The order of enumeration plays no part.  The ranking of names and the suggestions for a name are
the same for every order of the names, and every way to sort the candidates gives the ranking; the
suggestions are the best three names that are similar enough.  So a source is converted to the same
code and the same diagnostics whatever order its declared names are held in. -/
theorem convert_order_independent (o : Options) (source target : Text) {names names' : List Text}
    (hnames : names.Perm names') {table : SymbolTable}
    (htable : table.Reorders (analyze o.dialect source).table) :
    (rank target names = rank target names' ∧ suggest target names = suggest target names') ∧
    (∀ ranked : List Candidate, ranked.Perm (candidates target names) →
      ranked.Pairwise (fun a b => a.ranksBefore b) → ranked = rank target names) ∧
    IsSuggestion target names (suggest target names) ∧
    (let a := analyze o.dialect source
     (⟨Schema.generate o.effectiveLayout table a.enums a.classes,
       Schema.diagnostics o.effectiveLayout table a.classes⟩ : Conversion) = convert o source) := by
  refine ⟨⟨rank_eq_of_perm hnames, suggest_eq_of_perm hnames⟩, fun ranked hperm hsorted =>
    eq_rank_of_pairwise hperm hsorted, isSuggestion_suggest target names, ?_⟩
  simp only [convert, Schema.generate_reorders htable, Schema.diagnostics_reorders htable]

/-- Two classes that resemble an unknown type equally are suggested in the order of their names, and
their order in the table plays no part. -/
theorem convert_order_independent_similar :
    (let source : Text := "class Users \x7b User x; \x7d class Usera \x7b \x7d"
     let a := analyze .auto source
     let table : SymbolTable := ⟨a.table.classes.reverse, a.table.enums.reverse⟩
     table ≠ a.table ∧
       (⟨Schema.generate {} table a.enums a.classes, Schema.diagnostics {} table a.classes⟩ :
         Conversion) = convert {} source) ∧
    suggest "User" [utf8 "Users", utf8 "Usera"] = [utf8 "Usera", utf8 "Users"] := by
  have hreverse : ∀ t : SymbolTable, (SymbolTable.mk t.classes.reverse t.enums.reverse).Reorders t :=
    fun t => ⟨t.classes.reverse_perm, t.enums.reverse_perm⟩
  have hall := convert_order_independent {}
    "class Users \x7b User x; \x7d class Usera \x7b \x7d" "User"
    (List.Perm.swap (utf8 "Usera") (utf8 "Users") []) (hreverse _)
  have hrank := hall.2.1 (candidates "User" [utf8 "Usera", utf8 "Users"])
    (((List.Perm.swap _ _ _).filter _).map _) (by decide +kernel)
  refine ⟨⟨by decide +kernel, hall.2.2.2⟩, ?_⟩
  rw [suggest, ← hrank]
  decide +kernel

end DtoSchema
