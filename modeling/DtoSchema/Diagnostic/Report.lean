import DtoSchema.Diagnostic.Basic
import DtoSchema.Document.Json
import DtoSchema.Document.Yaml

/-!
# Reports

A report is the written form of the diagnostics of one origin: a line for each of them, or a
document in a format for other programs.
-/

namespace DtoSchema

open Text

namespace Diagnostic

/-! ### Formats -/

/-- The formats of a report. -/
inductive Format where
  /-- Lines for the reader. -/
  | pretty
  /-- A document in JSON. -/
  | json
  /-- A document in YAML. -/
  | yaml
  /-- No report. -/
  | none
  deriving DecidableEq, Repr

namespace Format

/-- The name of a format. -/
def name : Format → Text
  | pretty => "pretty"
  | json => "json"
  | yaml => "yaml"
  | none => "none"

/-- The format of a name. -/
def ofName? (s : Text) : Option Format := [pretty, json, yaml, none].find? (·.name = s)

/-- The message that a text names no format. -/
def unknownMessage (s : Text) : Text :=
  "unknown diagnostics format " ++ quoted s ++ " (pretty|json|yaml|none)"

end Format

/-! ### Lines -/

/-- A text between two terminal controls, if colours are wanted. -/
def coloured (colour : Bool) (on off s : Text) : Text :=
  onlyIf colour ("\x1b[" ++ on ++ "m") ++ s ++ onlyIf colour ("\x1b[" ++ off ++ "m")

/-- The control that starts the colour of a level. -/
def levelColour : Level → Text
  | .error => "31;1"
  | _ => "33;1"

/-- The line of a diagnostic. -/
def line (colour : Bool) (origin : Text) (d : Diagnostic) : Text :=
  coloured colour "2" "22" origin ++ ": " ++
    coloured colour (levelColour d.level) "0;22" d.level.name ++ ": " ++ d.summary ++ "\n"

/-! ### Documents -/

/-- A location as a document. -/
def locationDocument (l : Location) : Document :=
  .record (Document.unlessEmpty "class" l.className ++ Document.unlessEmpty "field" l.fieldName)

/-- A diagnostic as a document.  What is empty is left out, the message apart. -/
def document (d : Diagnostic) : Document :=
  .record <|
    [(("level" : Text), .text d.level.name)] ++ Document.unlessEmpty "code" d.code ++
      [(("message" : Text), .text d.message)] ++
      (d.location.map fun l => (("where" : Text), locationDocument l)).toList ++
      (if d.suggestions.isEmpty then []
        else [(("suggestions" : Text), .list (d.suggestions.map .text))])

/-- The report on the diagnostics of an origin. -/
def report (format : Format) (colour : Bool) (origin : Text) (ds : List Diagnostic) : Text :=
  match format with
  | .pretty => ds.flatMap (line colour origin)
  | .json => (Document.list (ds.map document)).json
  | .yaml => (Document.list (ds.map document)).yaml
  | .none => []

end Diagnostic

end DtoSchema
