import DtoSchema.Command.Run

/-!
# The command line

The commands run on the machine itself.  A watch looks at the times of its files at short intervals.
-/

namespace DtoSchema.CommandLine

open Command

/-- A text as a string, with the replacement character for what is no character. -/
def asString (s : Text) : String := String.ofList (Text.chars s)

/-- The refusal behind an error of the machine. -/
def refusalOf : IO.Error → Refusal
  | .noFileOrDirectory .. => .notFound
  | .noSuchThing .. => .notFound
  | .inappropriateType .. => .notDirectory
  | .alreadyExists .. => .occupied
  | e => .other (utf8 (toString e))

/-- An operation of the machine on a path. -/
def attemptOn {α : Type} (operation path : Text) (action : IO α) : IO (Except FileError α) := do
  try return .ok (← action)
  catch e => return .error ⟨operation, path, refusalOf e⟩

/-- The path leads to a directory. -/
def isDirectory (path : Text) : IO Bool := do
  return !path.isEmpty && (← ((← IO.currentDir) / asString path).isDir)

/-- There is something at the path. -/
def isThere (path : Text) : IO Bool := do
  return ← ((← IO.currentDir) / asString path).pathExists

/-- The content of a file. -/
def readFile (path : Text) : IO (Except FileError Text) := do
  if ← isDirectory path then return .error ⟨"read", path, .isDirectory⟩
  attemptOn "open" path do return (← IO.FS.readBinFile (asString path)).toList

/-- Writes a file. -/
def writeFile (path content : Text) : IO (Except FileError Unit) := do
  if ← isDirectory path then return .error ⟨"open", path, .isDirectory⟩
  attemptOn "open" path (IO.FS.writeBinFile (asString path) ⟨content.toArray⟩)

/-- Makes a directory and those that it lies in.  The fuel bounds the number of these. -/
def makeDirectories : (fuel : Nat) → Text → IO (Except FileError Unit)
  | 0, path => return .error ⟨"mkdir", path, .notFound⟩
  | fuel + 1, path => do
    if ← isDirectory path then return .ok ()
    if path.isEmpty then return .error ⟨"mkdir", path, .notFound⟩
    if ← isThere path then return .error ⟨"mkdir", path, .notDirectory⟩
    if let some dir := Path.parent? path then
      if let .error e ← makeDirectories fuel dir then return .error e
    attemptOn "mkdir" path (IO.FS.createDir (asString path))

/-- Writes to a stream. -/
def put (stream : IO.FS.Stream) (s : Text) : IO Unit := do
  stream.write ⟨s.toArray⟩
  stream.flush

/-- Reads a stream to its end. -/
partial def readAll (stream : IO.FS.Stream) (before : ByteArray) : IO ByteArray := do
  let next ← stream.read 65536
  if next.isEmpty then return before else readAll stream (before ++ next)

/-- The machine is a host. -/
instance : Host IO where
  readFile := readFile
  readInput := return (← readAll (← IO.getStdin) .empty).toList
  makeDirectories path := makeDirectories (path.length + 1) path
  writeFile := writeFile
  absolute path := do
    let dir := utf8 (← IO.currentDir).toString
    return if Path.isAbsolute path then Path.clean path else Path.append dir path
  watchRefusal path := do
    return if ← isDirectory path then none else some .notFound
  print s := do put (← IO.getStdout) s
  report s := do put (← IO.getStderr) s
  showsColours := do
    let plain := ((← IO.getEnv "NO_COLOR").getD "" != "") || (← IO.getEnv "TERM") == some "dumb"
    return !plain && (← (← IO.getStdout).isTty) && (← (← IO.getStderr).isTty)

/-- The time at which a file was changed, if it is there. -/
def changeTime (path : Text) : IO (Option IO.FS.SystemTime) := do
  try return some (← ((← IO.currentDir) / asString path).metadata).modified
  catch _ => return none

/-- The files with the times at which they were changed. -/
abbrev ChangeTimes := List (Text × Option IO.FS.SystemTime)

/-- The changes of files since some times, as events at the time `now`. -/
def changesSince (before : ChangeTimes) (now : Nat) : IO (ChangeTimes × List Event) := do
  let after ← before.mapM fun (path, _) => return (path, ← changeTime path)
  let events := (before.zip after).filterMap fun ((path, old), (_, new)) =>
    if new.isSome && old != new then some ⟨path, .written, now⟩ else none
  return (after, events)

/-- Goes on with a watch. -/
partial def follow (watch : Watch) (times : ChangeTimes) : IO Unit := do
  IO.sleep 50
  let now ← IO.monoMsNow
  let (times, events) ← changesSince times now
  let (watch, _) ← (events.foldl Watch.notice watch).tick now
  follow watch times

/-- Does what the words of a command line ask for. -/
def runWords (words : List Text) : IO UInt32 := do
  match ← (run (m := IO) false words).run with
  | .ok .done => return 0
  | .ok (.watching watch) =>
    follow watch (← watch.targets.mapM fun path => return (path, ← changeTime path))
    return 0
  | .error failure =>
    if let some message := failure.message? then
      put (← IO.getStderr) (programName ++ ": " ++ message ++ "\n")
    return 1

end DtoSchema.CommandLine

/-- The program. -/
def main (arguments : List String) : IO UInt32 :=
  DtoSchema.CommandLine.runWords (arguments.map DtoSchema.utf8)
