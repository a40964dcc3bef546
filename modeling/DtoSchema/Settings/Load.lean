import DtoSchema.File.Host
import DtoSchema.Settings.Toml
import DtoSchema.Settings.Yaml

/-!
# Settings from a file

The extension of a file, in letters of either case, says in which format its settings are.
-/

namespace DtoSchema.Settings

open Text

/-- The settings in a file with the given path and content. -/
def ofFile (path content : Text) : Except Error Settings :=
  let extension := Dialect.Choice.lowered (Path.extension path)
  if extension = ".yaml" ∨ extension = ".yml" then ofYaml content
  else if extension = ".toml" then ofToml content
  else .error (.unknownExtension extension)

/-- The settings in the file at a path. -/
def load {m : Type → Type} [Monad m] [Host m] (path : Text) : m (Except Error Settings) := do
  match ← Host.readFile path with
  | .ok content => return ofFile path content
  | .error e => return .error (.unreadable path e.message)

end DtoSchema.Settings
