import DtoSchema.Command.Failure

/-!
# Reports on jobs

The report on a job holds its diagnostics, and what was found in its source if that is asked for.
-/

namespace DtoSchema

open Text

/-! ### Declarations as documents -/

/-- A text of truth. -/
def truthText (b : Bool) : Text := if b then "true" else "false"

/-- A field as a document. -/
def Field.document (f : Field) : Document :=
  .record [("name", .text f.name), ("key", .text f.key), ("type", .text f.type),
    ("optional", .text (truthText f.optional))]

/-- A class as a document. -/
def ClassDecl.document (c : ClassDecl) : Document :=
  .record [("name", .text c.name), ("fields", .list (c.fields.map Field.document))]

/-- An enumeration as a document. -/
def EnumDecl.document (e : EnumDecl) : Document :=
  .record [("name", .text e.name), ("values", .list (e.values.map .text))]

/-- What is known about a source as a document. -/
def Analysis.document (a : Analysis) : Document :=
  .record [("dialect", .text a.dialect.name), ("enums", .list (a.enums.map EnumDecl.document)),
    ("classes", .list (a.classes.map ClassDecl.document))]

namespace Command

/-! ### Reports -/

/-- How a run converts and reports. -/
structure Manner where
  /-- The options of the conversions. -/
  options : Options := {}
  /-- The format of reports. -/
  format : Diagnostic.Format := .pretty
  /-- The number of conversions at a time. -/
  jobs : Nat := 1
  /-- The declarations are reported too. -/
  withModel : Bool := false
  /-- The use of colours: `on`, `off`, or `auto`. -/
  colour : Text := "auto"

/-- The name of an input in reports. -/
def origin (path : Text) : Text := if path = standardInput then "<stdin>" else path

/-- The report on a job.  Without diagnostics there are no lines to report, but there are
documents. -/
def jobReport (k : Manner) (colour : Bool) (j : Job) : Text :=
  onlyIf k.withModel (analyze k.options.dialect j.source).document.yaml ++
    Diagnostic.report k.format colour (origin j.path) j.conversion.diagnostics

/-- The diagnostics of all jobs. -/
def diagnosticsOf (jobs : List Job) : List Diagnostic := jobs.flatMap (·.conversion.diagnostics)

section
variable {m : Type → Type} [Monad m] [Host m]

/-- The reports are in colours. -/
def usesColours (k : Manner) : m (Except Failure Bool) :=
  if k.colour = "on" then return .ok true
  else if k.colour = "off" then return .ok false
  else if k.colour = "auto" ∨ k.colour = [] then return .ok (← Host.showsColours)
  else return .error (.unknownColour k.colour)

/-- Reports on jobs. -/
def reportJobs (k : Manner) (jobs : List Job) : m (Except Failure Unit) := do
  match ← usesColours k with
  | .error e => return .error e
  | .ok colour =>
    Host.report (jobs.flatMap (jobReport k colour))
    return .ok ()

/-- What can be read at some paths. -/
def sourcesAt : List Text → m Batch.Sources
  | [] => return {}
  | path :: paths => do
    if path = standardInput then
      let input ← Host.readInput
      return { ← sourcesAt paths with input := .ok input }
    else
      let content ← Host.readFile path
      return (← sourcesAt paths).withFile path content

/-- Converts the inputs at some paths. -/
def convertPaths (k : Manner) (cancelled : Bool) (paths : List Text) :
    m (Except Batch.Failure (List Job)) := do
  return Batch.convertAll k.jobs k.options cancelled (← sourcesAt paths) paths

/-- Writes the code of jobs to their output files. -/
def writeJobs (dir : Text) (jobs : List Job) : m (Except OutputError Unit) :=
  writeOutputs dir (jobs.map fun j => (j.path, j.conversion.code))

end

end Command

end DtoSchema
