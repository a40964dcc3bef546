import DtoSchema.Schema.Mapping
import DtoSchema.Schema.Refinement

/-!
# The code of schemas

The declarations of a source are written as code: first the enumerations, then the classes, each as
a schema constant with a comment before it and a type alias after it.
-/

namespace DtoSchema.Schema

open Text

/-- The layout of the code, and what types are mapped by. -/
structure Layout where
  /-- The first line, empty for none. -/
  header : Text := "import \x7b z \x7d from 'zod'"
  /-- Every schema has a comment with its name. -/
  comments : Bool := true
  /-- Every schema has a type alias. -/
  typeAliases : Bool := true
  /-- What stands before every property. -/
  indent : Text := "  "
  /-- Expressions that replace types, by the name of the type. -/
  overrides : List (Text × Text) := []
  /-- The limit of nesting, a number that is not positive standing for the default. -/
  maxDepth : Int := defaultMaxDepth

/-- A schema that is ready to be written. -/
structure Block where
  /-- The name of what it is the schema of. -/
  name : Text
  /-- The expression. -/
  body : Text
  deriving DecidableEq, Repr

/-- The expression of an enumeration. -/
def enumBody (e : EnumDecl) : Text :=
  "z.enum([" ++ join ", " (e.values.map quoteText) ++ "])"

/-- The expression of a class, from the lines of its properties. -/
def objectBody (lines : List Text) : Text :=
  if lines.isEmpty then "z.object(\x7b\x7d)"
  else "z.object(\x7b\n" ++ join ",\n" lines ++ "\n\x7d)"

/-- The expression of a field, refined by its constraints and made optional if its value may be
missing. -/
def fieldText (f : Field) (e : Expr) : Text :=
  let s := refine e.text (some e.kind) f.constraints
  if f.optional || f.constraints.nullable then makeOptional s else s

/-- The line of a field. -/
def fieldLine (layout : Layout) (f : Field) (e : Expr) : Text :=
  layout.indent ++ quoteKey f.key ++ ": " ++ fieldText f e

/-- What a field of a class is mapped to, with its diagnostics located. -/
def mapField (layout : Layout) (table : SymbolTable) (c : ClassDecl) (f : Field) :
    Expr × List Diagnostic :=
  let mapped := (Resolver.mk table layout.overrides).map layout.maxDepth f.type
  (mapped.expr, mapped.diagnostics.map (Diagnostic.locate c.name f.name))

/-- The block of an enumeration. -/
def enumBlock (e : EnumDecl) : Block := ⟨e.name, enumBody e⟩

/-- The block of a class. -/
def classBlock (layout : Layout) (table : SymbolTable) (c : ClassDecl) : Block :=
  ⟨c.name, objectBody (c.fields.map fun f => fieldLine layout f (mapField layout table c f).1)⟩

/-- The diagnostics of a class, field by field. -/
def classDiagnostics (layout : Layout) (table : SymbolTable) (c : ClassDecl) : List Diagnostic :=
  c.fields.flatMap fun f => (mapField layout table c f).2

/-- The text of a block. -/
def blockText (layout : Layout) (b : Block) : Text :=
  onlyIf layout.comments ("// " ++ b.name ++ "\n") ++
    "export const " ++ b.name ++ "Schema = " ++ b.body ++ "\n" ++
    onlyIf layout.typeAliases
      ("export type " ++ b.name ++ " = z.infer<typeof " ++ b.name ++ "Schema>\n")

/-- The blocks one below the other with an empty line between neighbours, and the header before
them. -/
def codeOf (layout : Layout) (blocks : List Block) : Text :=
  let header := if layout.header.isEmpty then [] else [layout.header ++ "\n"]
  join "\n" (header ++ blocks.map (blockText layout))

/-- The blocks of all enumerations and all classes, in this order. -/
def blocks (layout : Layout) (table : SymbolTable) (enums : List EnumDecl)
    (classes : List ClassDecl) : List Block :=
  enums.map enumBlock ++ classes.map (classBlock layout table)

/-- The code of all declarations. -/
def generate (layout : Layout) (table : SymbolTable) (enums : List EnumDecl)
    (classes : List ClassDecl) : Text :=
  codeOf layout (blocks layout table enums classes)

/-- What there is to say about the declarations, in the order of the code. -/
def diagnostics (layout : Layout) (table : SymbolTable) (classes : List ClassDecl) :
    List Diagnostic :=
  classes.flatMap (classDiagnostics layout table)

end DtoSchema.Schema
