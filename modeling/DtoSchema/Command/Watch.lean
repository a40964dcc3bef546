import DtoSchema.Command.Report

/-!
# Watches

A watch converts some files whenever they change.  A change is not acted upon at once: the file is
pending until nothing more has happened to it for a while.  A file leaves the pending ones before it
is read, so that a change while it is converted makes it pending again.
-/

namespace DtoSchema.Command

open Text

/-- What happened to a file. -/
inductive Change where
  /-- It was made, or put in the place of another one. -/
  | created
  /-- Its content was written. -/
  | written
  /-- It was removed. -/
  | removed
  /-- It was given another name. -/
  | renamed
  /-- Something about it was changed that is not its content. -/
  | relabelled
  deriving DecidableEq, Repr

/-- The file may have a new content. -/
def Change.touchesContent : Change → Bool
  | created | written => true
  | removed | renamed | relabelled => false

/-- Something that happened to a file. -/
structure Event where
  /-- The absolute path of the file. -/
  path : Text
  /-- What happened. -/
  change : Change
  /-- When it was noticed. -/
  time : Nat
  deriving DecidableEq, Repr

/-- What became of a conversion. -/
inductive Outcome where
  /-- The output file is new. -/
  | updated
  /-- The source cannot be read. -/
  | notConverted
  /-- The output file cannot be written. -/
  | notWritten
  /-- The diagnostics cannot be reported. -/
  | notReported
  deriving DecidableEq, Repr

/-- The message about an outcome. -/
def Outcome.message : Outcome → Text
  | updated => "schema updated"
  | notConverted => "conversion failed"
  | notWritten => "writing schema failed"
  | notReported => "reporting diagnostics failed"

/-- A watch. -/
structure Watch where
  /-- How files are converted. -/
  manner : Manner
  /-- The directory of the output files. -/
  output : Text
  /-- How long a file has to be quiet before it is converted. -/
  quiet : Nat
  /-- The absolute paths of the files. -/
  targets : List Text
  /-- The files that changed, with the times of their latest changes. -/
  pending : List (Text × Nat) := []

namespace Watch

/-! ### Pending files -/

/-- The watch after an event. -/
def notice (w : Watch) (e : Event) : Watch :=
  let path := Path.clean e.path
  if path ∈ w.targets ∧ e.change.touchesContent then
    { w with pending := w.pending.filter (·.1 != path) ++ [(path, e.time)] }
  else w

/-- The file has been quiet for long enough. -/
def isDue (w : Watch) (now : Nat) (file : Text × Nat) : Bool := w.quiet + file.2 ≤ now

/-- The watch without a pending file. -/
def forget (w : Watch) (path : Text) : Watch :=
  { w with pending := w.pending.filter (·.1 != path) }

end Watch

/-- A file that has to be converted, with the watch at the moment when it is read. -/
structure Request where
  /-- The path of the file. -/
  path : Text
  /-- The watch. -/
  watch : Watch

namespace Watch

/-- Goes through some pending files.  Each one that has been quiet for long enough leaves the
pending files and is then asked for. -/
def sweep (now : Nat) : List (Text × Nat) → Watch → List Request × Watch
  | [], w => ([], w)
  | file :: files, w =>
    if w.isDue now file then
      let left := w.forget file.1
      let (requests, last) := sweep now files left
      (⟨file.1, left⟩ :: requests, last)
    else sweep now files w

/-! ### Conversions -/

section
variable {m : Type → Type} [Monad m] [Host m]

/-- Converts a file. -/
def convert (w : Watch) (cancelled : Bool) (path : Text) : m (List Outcome) := do
  match ← convertPaths w.manner cancelled [path] with
  | .error _ => return [.notConverted]
  | .ok jobs =>
    match ← writeJobs w.output jobs with
    | .error _ => return [.notWritten]
    | .ok _ =>
      match ← reportJobs w.manner jobs with
      | .error _ => return [.notReported, .updated]
      | .ok _ => return [.updated]

/-- Converts the files that are asked for. -/
def answer (cancelled : Bool) : List Request → m (List Outcome)
  | [] => return []
  | r :: requests => do
    return (← r.watch.convert cancelled r.path) ++ (← answer cancelled requests)

/-- Converts the files that have been quiet for long enough. -/
def tick (w : Watch) (now : Nat) : m (Watch × List Outcome) := do
  let (requests, last) := sweep now w.pending w
  return (last, ← answer false requests)

/-- Fails if one of some directories cannot be watched. -/
def checkDirectories : List Text → m (Except Failure Unit)
  | [] => return .ok ()
  | dir :: dirs => do
    match ← Host.watchRefusal dir with
    | some refusal => return .error (.unwatchable dir refusal)
    | none => checkDirectories dirs

/-- A watch of the files at some paths.  The directories of the files have to be there. -/
def prepare (k : Manner) (output : Text) (quiet : Nat) (paths : List Text) :
    m (Except Failure Watch) := do
  let targets := (← paths.mapM Host.absolute).eraseDups
  match ← checkDirectories (targets.map Path.directory).eraseDups with
  | .error e => return .error e
  | .ok _ => return .ok { manner := k, output := output, quiet := quiet, targets := targets }

/-- All files of a watch are asked for once when it begins. -/
def requests (w : Watch) : List Request := w.targets.map fun path => ⟨path, w⟩

/-- Begins a watch of the files at some paths. -/
def start (k : Manner) (output : Text) (quiet : Nat) (cancelled : Bool) (paths : List Text) :
    m (Except Failure (Watch × List Outcome)) := do
  match ← prepare k output quiet paths with
  | .error e => return .error e
  | .ok w => return .ok (w, ← answer cancelled w.requests)

end

end Watch

end DtoSchema.Command
