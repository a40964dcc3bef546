import DtoSchema.Settings.Basic
import DtoSchema.Toml.Document

/-!
# Settings in TOML

The settings are the entries of the document.  Names are matched without regard to case, and every
key has to be a setting.
-/

namespace DtoSchema.Settings

open Text Toml

/-- A name in small letters.  The two characters outside of ASCII whose small form is an ASCII
letter count as that letter. -/
def foldName (s : Text) : Text :=
  ofChars <| (chars s).map fun c =>
    if c = '\u017f' then 's' else if c = '\u212a' then 'k' else c.toLower

/-- The text of an entry. -/
def tomlText? : Entry → Option Text
  | .value (.text s) => some s
  | _ => none

/-- The integer of an entry. -/
def tomlInteger? : Entry → Option Int
  | .value (.integer n) => some n
  | _ => none

/-- The truth value of an entry. -/
def tomlTruth? : Entry → Option Bool
  | .value (.bool b) => some b
  | _ => none

/-- The names in a table with their entries, in the order in which they were entered. -/
def namesIn (d : Toml.Document) (base : Key) : List (Text × Entry) :=
  d.entries.reverse.filterMap fun (k, e) =>
    match k.getLast? with
    | some name => if k = base ++ [name] then some (name, e) else none
    | none => none

/-- The settings that are read so far, and the keys that they were read from. -/
structure Reading where
  /-- The settings. -/
  entries : Entries := {}
  /-- The keys that are settings. -/
  known : List Key := []

/-- The reading with one more setting, read from the key `k`. -/
def Reading.set (r : Reading) (k : Key) (e : Entries) : Reading := ⟨e, k :: r.known⟩

/-- The reading with one more entry of the output table. -/
def readOutput? (base : Key) (r : Reading) : Text × Entry → Option Reading
  | (name, e) =>
    let k := base ++ [name]
    let field := foldName name
    if field = "header" then
      (tomlText? e).map fun v => r.set k { r.entries with header := some v }
    else if field = "comments" then
      (tomlTruth? e).map fun v => r.set k { r.entries with comments := some v }
    else if field = "type_aliases" then
      (tomlTruth? e).map fun v => r.set k { r.entries with typeAliases := some v }
    else if field = "indent" then (tomlText? e).map fun v => r.set k { r.entries with indent := v }
    else some r

/-- The reading with one more override. -/
def readOverride? (base : Key) (r : Reading) : Text × Entry → Option Reading
  | (name, e) =>
    (tomlText? e).map fun v =>
      r.set (base ++ [name]) { r.entries with overrides := r.entries.overrides ++ [(name, v)] }

/-- The reading with one more entry of the document.  The overrides may be something else than a
table, and then there are none. -/
def readSetting? (d : Toml.Document) (r : Reading) : Text × Entry → Option Reading
  | (name, e) =>
    let field := foldName name
    if field = "dialect" then
      (tomlText? e).map fun v => r.set [name] { r.entries with dialect := v }
    else if field = "diagnostics" then
      (tomlText? e).map fun v => r.set [name] { r.entries with diagnostics := v }
    else if field = "jobs" then
      (tomlInteger? e).map fun v => r.set [name] { r.entries with jobs := v }
    else if field = "max_depth" then
      (tomlInteger? e).map fun v => r.set [name] { r.entries with maxDepth := v }
    else if field = "type_overrides" then
      let r := r.set [name] r.entries
      if e = .table then (namesIn d [name]).foldlM (readOverride? [name]) r else some r
    else if field = "output" then
      if e = .table then
        (namesIn d [name]).foldlM (readOutput? [name]) (r.set [name] r.entries)
      else none
    else some r

/-- A byte of a name between double quotes. -/
def quotedNameByte (b : UInt8) : Text :=
  if b = ascii '"' then "\\\""
  else if b = ascii '\\' then "\\\\"
  else if b = 0x08 then "\\b"
  else if b = 0x09 then "\\t"
  else if b = 0x0a then "\\n"
  else if b = 0x0c then "\\f"
  else if b = 0x0d then "\\r"
  else if b < 0x20 || b == 0x7f then "\\u" ++ hexDigits 4 b.toNat
  else [b]

/-- A name as it is written in a key: between quotes, unless it is bare. -/
def writtenName (s : Text) : Text :=
  if s ≠ [] ∧ s.all Toml.Document.isBare then s else "\"" ++ s.flatMap quotedNameByte ++ "\""

/-- A key as it is written, with points between its names. -/
def writtenKey (k : Key) : Text := join "." (k.map writtenName)

/-- The settings of a document in TOML. -/
def ofToml (s : Text) : Except Error Settings :=
  match (Toml.parse? s).bind fun d =>
      ((namesIn d []).foldlM (readSetting? d) {}).map fun r => (d, r) with
  | none => .error .malformedToml
  | some (d, r) =>
    match d.written.reverse.find? fun k => !r.known.contains k with
    | some k => .error (.unknownKey (writtenKey k))
    | none => ofEntries r.entries

end DtoSchema.Settings
