import DtoSchema.Dialect
import DtoSchema.Schema.Code
import DtoSchema.Source.Comments

/-!
# Conversion of a source

A source is analysed for its declarations, and the declarations are written as the code of schemas.
-/

namespace DtoSchema

open Text

/-- How a source is converted. -/
structure Options where
  /-- The dialect of the source. -/
  dialect : Dialect.Choice := .auto
  /-- The layout of the code. -/
  layout : Schema.Layout := {}
  /-- Overrides that replace those of the layout. -/
  overrides : Option (List (Text × Text)) := none
  /-- A limit of nesting that replaces that of the layout if it is positive. -/
  maxDepth : Int := 0

/-- The layout with the replacements of the options. -/
def Options.effectiveLayout (o : Options) : Schema.Layout :=
  { o.layout with
    overrides := o.overrides.getD o.layout.overrides
    maxDepth := if 0 < o.maxDepth then o.maxDepth else o.layout.maxDepth }

/-- What is known about a source. -/
structure Analysis where
  /-- Its dialect. -/
  dialect : Dialect
  /-- The dialect was chosen and not found. -/
  forced : Bool
  /-- What spoke for the dialect. -/
  hints : List Dialect.Hint
  /-- The enumerations that it declares. -/
  enums : List EnumDecl
  /-- The classes that it declares. -/
  classes : List ClassDecl
  /-- The names that it declares. -/
  table : SymbolTable

/-- The declarations of a source in a normalized text of the given dialect. -/
def Analysis.ofText (dialect : Dialect) (forced : Bool) (hints : List Dialect.Hint) (s : Text) :
    Analysis where
  dialect := dialect
  forced := forced
  hints := hints
  enums := dialect.enums s
  classes := dialect.classes s
  table := .ofDecls (dialect.classes s) (dialect.enums s)

/-- What is known about a source, given the choice of its dialect. -/
def analyze (choice : Dialect.Choice) (source : Text) : Analysis :=
  let s := Source.normalize source
  match choice.forced? with
  | some dialect => .ofText dialect true [] s
  | none => let found := Dialect.detect s; .ofText found.dialect false found.hints s

/-- What a source is converted to. -/
structure Conversion where
  /-- The code of the schemas. -/
  code : Text
  /-- What there is to say about it. -/
  diagnostics : List Diagnostic
  deriving DecidableEq, Repr

/-- What a source is converted to under the given options. -/
def convert (o : Options) (source : Text) : Conversion :=
  let a := analyze o.dialect source
  let layout := o.effectiveLayout
  ⟨Schema.generate layout a.table a.enums a.classes,
    Schema.diagnostics layout a.table a.classes⟩

end DtoSchema
