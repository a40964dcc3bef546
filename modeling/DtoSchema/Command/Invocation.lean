import DtoSchema.Command.Failure
import DtoSchema.Naming.EditDistance

/-!
# Invocations

The first word of a command line that is neither a flag nor the value of one names the command.  The
other words belong to the command.
-/

namespace DtoSchema.Command

open Text

/-! ### The flags -/

/-- The file of settings. -/
def configFlag : Flag := { name := "config" }
/-- More messages. -/
def verboseFlag : Flag := { name := "verbose", letter := some (ascii 'v'), kind := .switch }
/-- The use of colours. -/
def colourFlag : Flag := { name := "color" }
/-- A request for help. -/
def helpFlag : Flag := { name := "help", letter := some (ascii 'h'), kind := .switch }
/-- The dialect of the sources. -/
def dialectFlag : Flag := { name := "dialect" }
/-- The format of reports. -/
def formatFlag : Flag := { name := "diagnostics" }
/-- The number of conversions at a time. -/
def jobsFlag : Flag := { name := "jobs", kind := .integer }
/-- The declarations are reported too. -/
def modelFlag : Flag := { name := "dump-model", kind := .switch }
/-- The directory for output files. -/
def outputFlag : Flag := { name := "out", letter := some (ascii 'o') }
/-- Every diagnostic is a failure. -/
def strictFlag : Flag := { name := "strict", kind := .switch }

/-- The flags that may stand before the command. -/
def commonFlags : List Flag := [configFlag, verboseFlag, colourFlag]

/-! ### The commands -/

/-- The commands. -/
inductive Name where
  /-- Converts sources. -/
  | convert
  /-- Reports the diagnostics of sources. -/
  | check
  /-- Converts sources whenever they change. -/
  | watch
  /-- Tells the version. -/
  | version
  deriving DecidableEq, Repr

namespace Name

/-- The word for a command. -/
def word : Name → Text
  | convert => "convert"
  | check => "check"
  | watch => "watch"
  | version => "version"

/-- All commands. -/
def all : List Name := [convert, check, watch, version]

/-- The command of a word. -/
def ofWord? (s : Text) : Option Name := all.find? (·.word == s)

/-- The flags of a command. -/
def flags (c : Name) : List Flag :=
  let conversion := [dialectFlag, formatFlag, jobsFlag, modelFlag]
  commonFlags ++ [helpFlag] ++
    match c with
    | convert => conversion ++ [outputFlag]
    | check => conversion ++ [strictFlag]
    | watch => conversion ++ [outputFlag]
    | version => []

end Name

/-! ### The name of the command -/

/-- The word is a flag whose value is the next word.  A flag that may not stand before the command
is taken for one with a value. -/
def takesValue (word : Text) : Bool :=
  let isSwitch (f : Option Flag) : Bool := f.any (·.kind == .switch)
  !word.contains (ascii '=') &&
    ((startsWith word "--" && !isSwitch (flagNamed? commonFlags (word.drop 2))) ||
      (startsWith word "-" && word.length == 2 &&
        !isSwitch ((word.drop 1).head?.bind (flagLettered? commonFlags))))

/-- The first word that is neither a flag nor the value of one, and the words without it.  The last
word of all is not looked at if it follows a flag with a value. -/
def cutCommand? : List Text → Option (Text × List Text)
  | [] => none
  | word :: rest =>
    if word = "--" then none
    else if takesValue word then
      match rest with
      | value :: next :: rest =>
        (cutCommand? (next :: rest)).map fun (command, words) => (command, word :: value :: words)
      | _ => none
    else if word ≠ [] ∧ !startsWith word "-" then some (word, rest)
    else (cutCommand? rest).map fun (command, words) => (command, word :: words)

/-- The words that are suggested for similar ones: the commands, and the request for completions. -/
def suggestible : List Text := Name.all.map Name.word ++ [("completion" : Text)]

/-- The commands similar to a word: those that it begins, and those at a distance of at most two. -/
def similarTo (word : Text) : List Text :=
  let small := Dialect.Choice.lowered word
  suggestible.filter fun name => startsWith name small || Naming.editDistance small name ≤ 2

/-! ### Invocations -/

/-- What a command line asks for. -/
inductive Invocation where
  /-- How to use the program. -/
  | help
  /-- A command with its words. -/
  | command (name : Name) (words : Words)
  deriving DecidableEq, Repr

/-- The number of arguments suits the command. -/
def checkArguments (c : Name) (arguments : List Text) : Except Failure Unit :=
  match c, arguments with
  | .version, argument :: _ => .error (.unwantedArgument c.word argument)
  | .watch, [] => .error .missingArgument
  | _, _ => .ok ()

/-- The invocation of a command. -/
def invoke (c : Name) (words : List Text) : Except Failure Invocation := do
  let ws ← (readWords c.flags words).mapError .flag
  if ws.isOn helpFlag then return .help
  checkArguments c ws.arguments
  return .command c ws

/-- What a command line asks for. -/
def readInvocation (words : List Text) : Except Failure Invocation :=
  match cutCommand? words with
  | none => do
    let _ ← (readWords (commonFlags ++ [helpFlag]) words).mapError .flag
    return .help
  | some (word, rest) =>
    match Name.ofWord? word with
    | some c => invoke c rest
    | none => .error (.unknownCommand word (similarTo word))

end DtoSchema.Command
