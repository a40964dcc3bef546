import DtoSchema.Settings.Basic
import DtoSchema.Yaml.Decoding

/-!
# Settings in YAML

The settings are a mapping.  Names that are no setting are passed over, and a setting without a
value is not set.
-/

namespace DtoSchema.Settings

open Yaml Yaml.Decoding

/-- The settings of the output section. -/
def outputFields : List (Text × Setter Entries) :=
  [("header", fun e o => return { e with header := ← text o }),
    ("comments", fun e o => return { e with comments := ← scalar Value.truth? o }),
    ("type_aliases", fun e o => return { e with typeAliases := ← scalar Value.truth? o }),
    ("indent", fun e o => return { e with indent := (← text o).getD e.indent })]

/-- The settings. -/
def fields : List (Text × Setter Entries) :=
  [("dialect", fun e o => return { e with dialect := (← text o).getD e.dialect }),
    ("diagnostics", fun e o => return { e with diagnostics := (← text o).getD e.diagnostics }),
    ("jobs", fun e o => return { e with jobs := (← scalar Value.integer? o).getD e.jobs }),
    ("max_depth", fun e o =>
      return { e with maxDepth := (← scalar Value.integer? o).getD e.maxDepth }),
    ("type_overrides", fun e o => return { e with overrides := ← textMap o }),
    ("output", fun e o => record outputFields e o)]

/-- The entries of a stream in YAML. -/
def yamlEntries? (s : Text) : Option Entries :=
  (Yaml.parse? s).bind fun st => st.decode? {} (record fields {})

/-- The settings of a stream in YAML. -/
def ofYaml (s : Text) : Except Error Settings :=
  match yamlEntries? s with
  | none => .error .malformedYaml
  | some e => ofEntries e

end DtoSchema.Settings
