import DtoSchema.Command.Invocation
import DtoSchema.Command.Watch
import DtoSchema.Settings.Load

/-!
# Commands

A command gets its settings from a file and from its flags, which come before the file.
-/

namespace DtoSchema.Command

open Text

/-- How the conversions of a command run: as the settings say where the flags do not. -/
def manner (s : Settings) (ws : Words) : Except Failure Manner := do
  let dialect ← match ws.given? dialectFlag with
    | none => .ok s.options.dialect
    | some name =>
      match Dialect.Choice.parse? name with
      | some choice => .ok choice
      | none => .error (.unknownDialect name)
  let format ← match ws.given? formatFlag with
    | none => .ok s.format
    | some name =>
      match Diagnostic.Format.ofName? name with
      | some format => .ok format
      | none => .error (.unknownFormat name)
  let jobs ← match ws.integer? jobsFlag with
    | none => .ok s.jobs
    | some jobs => if jobs < 1 then .error (.tooFewJobs jobs) else .ok jobs.toNat
  return {
    options := { s.options with dialect := dialect }
    format := format
    jobs := jobs
    withModel := ws.isOn modelFlag
    colour := ws.textOf colourFlag "auto" }

/-- The paths of the inputs.  Without arguments it is the standard input, which can be read once. -/
def inputPaths (arguments : List Text) : Except Failure (List Text) :=
  if arguments.isEmpty then .ok [standardInput]
  else if 1 < arguments.count standardInput then .error .inputRepeated
  else .ok arguments

/-- How a command ends if it does not fail. -/
inductive Ending where
  /-- It is done. -/
  | done
  /-- It goes on with a watch. -/
  | watching (watch : Watch)

/-- How long a file has to be quiet before a watch converts it, in milliseconds. -/
def quietTime : Nat := 200

section
variable {m : Type → Type} [Monad m] [Host m]

/-- An action whose errors are failures of the command. -/
def attempt {ε α : Type} (failure : ε → Failure) (action : m (Except ε α)) : ExceptT Failure m α :=
  ExceptT.mk do return (← action).mapError failure

/-- Converts the inputs of a command. -/
def runBatch (k : Manner) (cancelled : Bool) (ws : Words) : ExceptT Failure m (List Job) := do
  let paths ← (inputPaths ws.arguments : Except Failure _)
  attempt .batch (convertPaths k cancelled paths)

/-- Prints the code of jobs, with an empty line between them, or writes it to output files. -/
def putCode (dir : Text) (jobs : List Job) : ExceptT Failure m Unit :=
  if dir = [] then ExceptT.lift (Host.print (join "\n" (jobs.map (·.conversion.code))))
  else attempt .output (writeJobs dir jobs)

/-- Converts sources, and fails if there are errors in them. -/
def runConvert (s : Settings) (cancelled : Bool) (ws : Words) : ExceptT Failure m Unit := do
  let k ← (manner s ws : Except Failure _)
  let jobs ← runBatch k cancelled ws
  putCode (ws.textOf outputFlag []) jobs
  attempt id (reportJobs k jobs)
  if 0 < Diagnostic.count .error (diagnosticsOf jobs) then throw .reported

/-- Reports the diagnostics of sources, and fails if there are errors among them.  A strict check
fails if there are any. -/
def runCheck (s : Settings) (cancelled : Bool) (ws : Words) : ExceptT Failure m Unit := do
  let k ← (manner s ws : Except Failure _)
  let jobs ← runBatch k cancelled ws
  attempt id (reportJobs k jobs)
  let ds := diagnosticsOf jobs
  if 0 < Diagnostic.count .error ds ∨ (ws.isOn strictFlag ∧ ds ≠ []) then throw .reported
  if k.format = .pretty then
    ExceptT.lift <| Host.print <| ofNat jobs.length ++ " input(s) OK, " ++
      ofNat (Diagnostic.count .warn ds) ++ " warning(s)\n"

/-- Begins a watch. -/
def runWatch (s : Settings) (cancelled : Bool) (ws : Words) : ExceptT Failure m Ending := do
  let output := ws.textOf outputFlag []
  if output = [] then throw .noOutput
  if standardInput ∈ ws.arguments then throw .inputWatched
  let k ← (manner s ws : Except Failure _)
  let (w, _) ← attempt id (Watch.start k output quietTime cancelled ws.arguments)
  return if cancelled then .done else .watching w

/-- The settings of a command. -/
def loadSettings (ws : Words) : ExceptT Failure m Settings :=
  let path := ws.textOf configFlag []
  if path = [] then return .default else attempt .settings (Settings.load path)

/-- Runs a command. -/
def runCommand (c : Name) (cancelled : Bool) (ws : Words) : ExceptT Failure m Ending := do
  let s ← loadSettings ws
  match c with
  | .convert => runConvert s cancelled ws; return .done
  | .check => runCheck s cancelled ws; return .done
  | .watch => runWatch s cancelled ws
  | .version => ExceptT.lift (Host.print (programName ++ " dev\n")); return .done

/-- Does what a command line asks for. -/
def run (cancelled : Bool) (words : List Text) : ExceptT Failure m Ending := do
  match ← (readInvocation words : Except Failure _) with
  | .help => return .done
  | .command c ws => runCommand c cancelled ws

end

end DtoSchema.Command
