import DtoSchema.Text.Quoted

/-!
# Diagnostics

What a conversion has to say about its input: warnings and errors, each with a code, a message, the
class and field that it is about, and names that may have been meant.
-/

namespace DtoSchema

open Text

/-- The level of a diagnostic. -/
inductive Level where
  /-- Something was replaced by a default. -/
  | warn
  /-- Something could not be converted. -/
  | error
  /-- A level without a name of its own. -/
  | unknown
  deriving DecidableEq, Repr

namespace Level

/-- The name of a level. -/
def name : Level → Text
  | warn => "warn"
  | error => "error"
  | unknown => "unknown"

/-- The level of a given name. -/
def ofName? (s : Text) : Option Level :=
  if s = "warn" then some warn else if s = "error" then some error else none

/-- The message that a text names no level. -/
def unknownMessage (s : Text) : Text := "unknown diagnostic level " ++ quoted s

end Level

/-- The class and field that a diagnostic is about. -/
structure Location where
  /-- The name of the class, possibly empty. -/
  className : Text
  /-- The declared name of the field, possibly empty. -/
  fieldName : Text
  deriving DecidableEq, Repr

/-- A diagnostic. -/
structure Diagnostic where
  /-- How grave it is. -/
  level : Level
  /-- What kind of thing was found. -/
  code : Text := []
  /-- The description. -/
  message : Text := []
  /-- Where it was found. -/
  location : Option Location := none
  /-- The declared names that may have been meant. -/
  suggestions : List Text := []
  deriving DecidableEq, Repr

namespace Diagnostic

/-- The diagnostic located at a field of a class. -/
def locate (className fieldName : Text) (d : Diagnostic) : Diagnostic :=
  { d with location := some ⟨className, fieldName⟩ }

/-- The words of a diagnostic that say where it was found. -/
def place (d : Diagnostic) : List Text :=
  match d.location with
  | none => []
  | some l =>
    (if l.className.isEmpty then [] else ["[" ++ l.className ++ "]"]) ++
      (if l.fieldName.isEmpty then [] else [l.fieldName])

/-- The diagnostic on one line: place, code, message and suggestions. -/
def summary (d : Diagnostic) : Text :=
  onlyIf (!d.place.isEmpty) (join " " d.place ++ ": ") ++
    onlyIf (!d.code.isEmpty) ("[" ++ d.code ++ "] ") ++ d.message ++
    onlyIf (!d.suggestions.isEmpty)
      (" (did you mean " ++ join ", " (d.suggestions.map fun n => "'" ++ n ++ "'") ++ "?)")

/-- The number of diagnostics of a level. -/
def count (level : Level) (ds : List Diagnostic) : Nat := ds.countP (·.level == level)

/-- The errors among diagnostics, on one line, if there are any. -/
def errors? (ds : List Diagnostic) : Option Text :=
  match ds.filter (·.level == .error) with
  | [] => none
  | errors => some (join "; " (errors.map summary))

end Diagnostic

end DtoSchema
