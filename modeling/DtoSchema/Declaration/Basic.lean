import DtoSchema.Mark.Constraints

/-!
# Declarations

A source declares classes with their fields, and enumerations with their constants.  This module
holds the types of what was declared, the merging of classes that share a name, and the table of
declared names.
-/

namespace DtoSchema

open Text

/-- A serialized property of a class. -/
structure Field where
  /-- The declared name. -/
  name : Text
  /-- The name under which it is written, empty if it is the declared one. -/
  emitName : Text := []
  /-- The declared type as written, without a mark that the value is optional. -/
  type : Text
  /-- The value may be missing. -/
  optional : Bool := false
  /-- What its annotations say. -/
  constraints : Constraints := {}
  deriving DecidableEq, Repr

/-- The key under which the field is written. -/
def Field.key (f : Field) : Text := if f.emitName.isEmpty then f.name else f.emitName

/-- The field `name` of type `type`, written under the name that its constraints give it. -/
def Field.declare (name type : Text) (optional : Bool) (constraints : Constraints) : Field where
  name := name
  emitName := if constraints.rename.isEmpty then name else constraints.rename
  type := type
  optional := optional
  constraints := constraints

/-- A declared class. -/
structure ClassDecl where
  /-- The name of the class. -/
  name : Text
  /-- Its fields in order. -/
  fields : List Field
  deriving DecidableEq, Repr

/-- A declared enumeration. -/
structure EnumDecl where
  /-- The name of the enumeration. -/
  name : Text
  /-- Its constants in order. -/
  values : List Text
  deriving DecidableEq, Repr

/-! ### Merging -/

/-- The fields whose key is not among `seen` and does not occur before. -/
def dedupFrom (seen : List Text) : List Field → List Field
  | [] => []
  | f :: fs => if f.key ∈ seen then dedupFrom seen fs else f :: dedupFrom (f.key :: seen) fs

/-- The fields whose key does not occur before; the first of a key stays. -/
def dedupFields (fields : List Field) : List Field := dedupFrom [] fields

/-- The classes after one more has been merged in: its fields join those of the class of the same
name, or it becomes the last class. -/
def mergeClass (c : ClassDecl) : List ClassDecl → List ClassDecl
  | [] => [{ c with fields := dedupFields c.fields }]
  | d :: ds =>
    if d.name = c.name then { d with fields := dedupFields (d.fields ++ c.fields) } :: ds
    else d :: mergeClass c ds

/-- One class for each name, in the order of first occurrence, with the fields of all classes of
that name. -/
def coalesce (classes : List ClassDecl) : List ClassDecl :=
  classes.foldl (fun merged c => mergeClass c merged) []

/-! ### The table of names -/

/-- The names that a source declares. -/
structure SymbolTable where
  /-- The names of the classes, each once. -/
  classes : List Text := []
  /-- The names of the enumerations, each once. -/
  enums : List Text := []
  deriving DecidableEq, Repr

namespace SymbolTable

/-- The table of the given names. -/
def ofNames (classes enums : List Text) : SymbolTable := ⟨classes.eraseDups, enums.eraseDups⟩

/-- The table of the declared names. -/
def ofDecls (classes : List ClassDecl) (enums : List EnumDecl) : SymbolTable :=
  ofNames (classes.map (·.name)) (enums.map (·.name))

/-- The name is that of a class. -/
def hasClass (t : SymbolTable) (name : Text) : Bool := name ∈ t.classes

/-- The name is that of an enumeration. -/
def hasEnum (t : SymbolTable) (name : Text) : Bool := name ∈ t.enums

/-- All names; one that is both a class and an enumeration occurs twice. -/
def names (t : SymbolTable) : List Text := t.classes ++ t.enums

/-- All names in the order of their bytes. -/
def sortedNames (t : SymbolTable) : List Text :=
  t.names.mergeSort fun s t => (Text.compare s t).isLE

end SymbolTable

end DtoSchema
