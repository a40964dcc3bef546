import DtoSchema.Conversion
import DtoSchema.Diagnostic.Report

/-!
# Settings

Settings come from a file.  What the file leaves out, and numbers that are not positive, get a
default.
-/

namespace DtoSchema

open Text

/-- What a file of settings says.  An empty text and the number zero say nothing. -/
structure Entries where
  /-- The dialect of the sources. -/
  dialect : Text := []
  /-- The format of reports. -/
  diagnostics : Text := []
  /-- The number of conversions at a time. -/
  jobs : Int := 0
  /-- The limit of nesting of types. -/
  maxDepth : Int := 0
  /-- Schemas for types, by the names of the types. -/
  overrides : List (Text × Text) := []
  /-- The first line of the code. -/
  header : Option Text := none
  /-- The code holds comments. -/
  comments : Option Bool := none
  /-- The code holds type aliases. -/
  typeAliases : Option Bool := none
  /-- The indentation of the code. -/
  indent : Text := []

/-- Settings that are complete. -/
structure Settings where
  /-- The dialect of the sources as it was written. -/
  dialectText : Text
  /-- The dialect of the sources. -/
  dialect : Dialect.Choice
  /-- The format of reports. -/
  format : Diagnostic.Format
  /-- The number of conversions at a time. -/
  jobs : Nat
  /-- The limit of nesting of types. -/
  maxDepth : Nat
  /-- Schemas for types, by the names of the types. -/
  overrides : List (Text × Text)
  /-- The layout of the code. -/
  layout : Schema.Layout

namespace Settings

/-- Why there are no settings. -/
inductive Error where
  /-- A file in YAML is malformed, or a value in it is of the wrong kind. -/
  | malformedYaml
  /-- A file in TOML is malformed, or a value in it is of the wrong kind. -/
  | malformedToml
  /-- There is no setting of this name. -/
  | unknownKey (key : Text)
  /-- There is no dialect of this name. -/
  | unknownDialect (name : Text)
  /-- There is no format of this name. -/
  | unknownFormat (name : Text)
  /-- The extension of the file belongs to no known format. -/
  | unknownExtension (extension : Text)
  /-- The file cannot be read, for the given reason. -/
  | unreadable (path reason : Text)
  deriving DecidableEq, Repr

/-- The message of an error. -/
def Error.message : Error → Text
  | malformedYaml => "failed to parse config YAML"
  | malformedToml => "failed to parse config TOML"
  | unknownKey key => "unknown config key " ++ quoted key
  | unknownDialect name => "config: " ++ Dialect.Choice.unknownMessage name
  | unknownFormat name => "config: " ++ Diagnostic.Format.unknownMessage name
  | unknownExtension extension =>
    "unsupported config file extension " ++ quoted extension ++ " (.yaml, .yml, .toml)"
  | unreadable path reason => "failed to read config file " ++ path ++ ": " ++ reason

/-- A text, or the default if it is empty. -/
def orDefault (s default : Text) : Text := if s.isEmpty then default else s

/-- A positive number, or the default. -/
def positiveOr (n : Int) (default : Nat) : Nat := if 0 < n then n.toNat else default

/-- The settings that entries stand for. -/
def ofEntries (e : Entries) : Except Error Settings :=
  let dialect := orDefault e.dialect Dialect.Choice.auto.name
  let format := orDefault e.diagnostics Diagnostic.Format.pretty.name
  let layout : Schema.Layout := {}
  match Dialect.Choice.parse? dialect, Diagnostic.Format.ofName? format with
  | none, _ => .error (.unknownDialect dialect)
  | some _, none => .error (.unknownFormat format)
  | some choice, some format => .ok
    { dialectText := dialect
      dialect := choice
      format := format
      jobs := positiveOr e.jobs 1
      maxDepth := positiveOr e.maxDepth 64
      overrides := e.overrides
      layout := { layout with
        header := e.header.getD layout.header
        comments := e.comments.getD layout.comments
        typeAliases := e.typeAliases.getD layout.typeAliases
        indent := orDefault e.indent layout.indent } }

/-- The settings without a file. -/
def default : Settings where
  dialectText := Dialect.Choice.auto.name
  dialect := .auto
  format := .pretty
  jobs := 1
  maxDepth := 64
  overrides := []
  layout := {}

/-- The options of a conversion under given settings. -/
def options (s : Settings) : Options where
  dialect := s.dialect
  layout := s.layout
  overrides := some s.overrides
  maxDepth := s.maxDepth

end Settings

end DtoSchema
