import DtoSchema.File.Host

/-!
# Output files

The code for each input goes to a file of its own in one directory.  Two inputs for which the file
has the same name are refused before anything is written.
-/

namespace DtoSchema

open Text

/-- The path that stands for the standard input. -/
def standardInput : Text := "-"

/-- The name of the file for the schemas of an input: the last name of its path, with the extension
for schemas in place of its own. -/
def outputName (path : Text) : Text :=
  if path = [] ∨ path = standardInput then "schemas.ts"
  else Path.stem (Path.base path) ++ ".ts"

/-- Why output files are not written. -/
inductive OutputError where
  /-- There is no directory for them. -/
  | directory (error : FileError)
  /-- The file of this name cannot be written. -/
  | file (name : Text) (error : FileError)
  /-- Two inputs have the same output name. -/
  | collision (first second name : Text)
  deriving DecidableEq, Repr

/-- The message of an error. -/
def OutputError.message : OutputError → Text
  | directory e => "creating output directory: " ++ e.message
  | file name e => "writing file " ++ name ++ ": " ++ e.message
  | collision first second name =>
    "inputs " ++ first ++ " and " ++ second ++ " both map to " ++ name

section
variable {m : Type → Type} [Monad m] [Host m]

/-- Writes files, given by name and content, in a directory that is there. -/
def writeInto (dir : Text) : List (Text × Text) → m (Except OutputError Unit)
  | [] => return .ok ()
  | (name, content) :: files => do
    match ← Host.writeFile (Path.append dir name) content with
    | .ok _ => writeInto dir files
    | .error e => return .error (.file name e)

/-- Writes files, given by name and content, in a directory, which is made if need be. -/
def writeFiles (dir : Text) (files : List (Text × Text)) : m (Except OutputError Unit) := do
  match ← Host.makeDirectories dir with
  | .ok _ => writeInto dir files
  | .error e => return .error (.directory e)

/-- The first two inputs that have the same output name, with that name.  The inputs in `seen` are
those before, with the latest one first. -/
def collisionAfter? (seen : List Text) : List Text → Option (Text × Text × Text)
  | [] => none
  | path :: paths =>
    match seen.find? (outputName · == outputName path) with
    | some first => some (first, path, outputName path)
    | none => collisionAfter? (path :: seen) paths

/-- The first two inputs that have the same output name, with that name. -/
def collision? (paths : List Text) : Option (Text × Text × Text) := collisionAfter? [] paths

/-- Writes the code for each input, given by its path, to its output file. -/
def writeOutputs (dir : Text) (outputs : List (Text × Text)) : m (Except OutputError Unit) :=
  match collision? (outputs.map (·.1)) with
  | some (first, second, name) => return .error (.collision first second name)
  | none => writeFiles dir (outputs.map fun (path, code) => (outputName path, code))

end

end DtoSchema
