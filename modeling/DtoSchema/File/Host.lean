import DtoSchema.File.Tree

/-!
# Hosts

A command reads and writes files, reads its standard input, and writes to two streams.  A host is a
monad that can do this.  A world is the host as a value, in which the effects of a command can be
looked at; the command line runs on the machine itself.
-/

namespace DtoSchema

open Text

/-- A monad with files, an input and two streams for output. -/
class Host (m : Type → Type) where
  /-- The content of a file. -/
  readFile : Text → m (Except FileError Text)
  /-- The standard input. -/
  readInput : m Text
  /-- Makes a directory and those that it lies in. -/
  makeDirectories : Text → m (Except FileError Unit)
  /-- Writes a file. -/
  writeFile : Text → Text → m (Except FileError Unit)
  /-- The absolute path for a path. -/
  absolute : Text → m Text
  /-- Why a directory cannot be watched, if it cannot. -/
  watchRefusal : Text → m (Option Refusal)
  /-- Writes to the standard output. -/
  print : Text → m Unit
  /-- Writes to the stream for reports. -/
  report : Text → m Unit
  /-- The stream for reports is a terminal that shows colours. -/
  showsColours : m Bool

/-- A host as a value. -/
structure World where
  /-- The files. -/
  tree : Tree
  /-- The standard input. -/
  input : Text := []
  /-- What has been written to the standard output. -/
  output : Text := []
  /-- What has been written to the stream for reports. -/
  reports : Text := []
  deriving DecidableEq, Repr

namespace World

/-- An operation that changes the files, or is refused. -/
def change (f : Tree → Except FileError Tree) : StateM World (Except FileError Unit) := fun w =>
  match f w.tree with
  | .ok t => (.ok (), { w with tree := t })
  | .error e => (.error e, w)

end World

/-- A world is a host without colours. -/
instance : Host (StateM World) where
  readFile path := return (← get).tree.read path
  readInput := return (← get).input
  makeDirectories path := World.change (·.makeDirectories path)
  writeFile path content := World.change (·.write path content)
  absolute path := return (← get).tree.absolute path
  watchRefusal path := do
    match (← get).tree.stat path with
    | .ok _ => return none
    | .error r => return some r
  print s := modify fun w => { w with output := w.output ++ s }
  report s := modify fun w => { w with reports := w.reports ++ s }
  showsColours := return false

end DtoSchema
