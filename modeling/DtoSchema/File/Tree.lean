import DtoSchema.File.Path

/-!
# File trees

A file tree is a value: the files and directories of a machine with their contents, and the working
directory.  Paths are followed name by name, and an operation that cannot be done says why, in the
words of the operating system.
-/

namespace DtoSchema

open Text

/-- Why the operating system refuses an operation. -/
inductive Refusal where
  /-- There is nothing at the path. -/
  | notFound
  /-- A part of the path that has to be a directory is a file. -/
  | notDirectory
  /-- What has to be a file is a directory. -/
  | isDirectory
  /-- There is something at the path already. -/
  | occupied
  /-- Any other reason. -/
  | other (reason : Text)
  deriving DecidableEq, Repr

/-- The words for a refusal. -/
def Refusal.message : Refusal → Text
  | notFound => "no such file or directory"
  | notDirectory => "not a directory"
  | isDirectory => "is a directory"
  | occupied => "file exists"
  | other reason => reason

/-- An operation on a path that was refused. -/
structure FileError where
  /-- The name of the operation. -/
  operation : Text
  /-- The path as it was given. -/
  path : Text
  /-- The reason. -/
  refusal : Refusal
  deriving DecidableEq, Repr

/-- The message of a refused operation. -/
def FileError.message (e : FileError) : Text :=
  e.operation ++ " " ++ e.path ++ ": " ++ e.refusal.message

/-- What is at a place of a file tree. -/
inductive FileNode where
  /-- A file with its content. -/
  | file (content : Text)
  /-- A directory. -/
  | directory
  deriving DecidableEq, Repr

/-- A file tree. -/
structure Tree where
  /-- The files and directories, by the names that lead to them from the root. -/
  nodes : List (List Text × FileNode)
  /-- The names of the working directory. -/
  working : List Text
  deriving DecidableEq, Repr

namespace Tree

/-- What is at the end of some names.  The root is a directory. -/
def get? (t : Tree) (ns : List Text) : Option FileNode :=
  if ns = [] then some .directory else t.nodes.lookup ns

/-- The tree with something at the end of some names. -/
def put (t : Tree) (ns : List Text) (n : FileNode) : Tree :=
  { t with nodes := (ns, n) :: t.nodes.filter (·.1 != ns) }

/-- The tree without what is at the end of some names. -/
def erase (t : Tree) (ns : List Text) : Tree := { t with nodes := t.nodes.filter (·.1 != ns) }

/-- The place where the names of a path lead from a place.  All places on the way have to be
directories; the last one need not be there. -/
def follow (t : Tree) : (place : List Text) → List Text → Except Refusal (List Text)
  | place, [] => .ok place
  | place, n :: ns =>
    match t.get? place with
    | none => .error .notFound
    | some (.file _) => .error .notDirectory
    | some .directory =>
      if n = "." then follow t place ns
      else if n = ".." then follow t place.dropLast ns
      else follow t (place ++ [n]) ns

/-- The place where a path leads.  A slash at its end asks for a directory. -/
def locate (t : Tree) (path : Text) : Except Refusal (List Text) :=
  if path = [] then .error .notFound
  else
    let start := if Path.isAbsolute path then [] else t.working
    let ending : List Text := if path.getLast? = some Path.slash then ["."] else []
    t.follow start (Path.names path ++ ending)

/-- What is at a path. -/
def stat (t : Tree) (path : Text) : Except Refusal FileNode :=
  match t.locate path with
  | .error r => .error r
  | .ok ns =>
    match t.get? ns with
    | some n => .ok n
    | none => .error .notFound

/-- The content of the file at a path. -/
def read (t : Tree) (path : Text) : Except FileError Text :=
  match t.stat path with
  | .ok (.file content) => .ok content
  | .ok .directory => .error ⟨"read", path, .isDirectory⟩
  | .error r => .error ⟨"open", path, r⟩

/-- The tree with a file at a path, whose directory has to be there. -/
def write (t : Tree) (path content : Text) : Except FileError Tree :=
  match t.locate path with
  | .error r => .error ⟨"open", path, r⟩
  | .ok ns =>
    match t.get? ns, t.get? ns.dropLast with
    | some .directory, _ => .error ⟨"open", path, .isDirectory⟩
    | some (.file _), _ | none, some .directory => .ok (t.put ns (.file content))
    | none, some (.file _) => .error ⟨"open", path, .notDirectory⟩
    | none, none => .error ⟨"open", path, .notFound⟩

/-- The tree with a new directory at a path, whose parent has to be there. -/
def makeDirectory (t : Tree) (path : Text) : Except FileError Tree :=
  match t.locate (dropWhileEnd (· == Path.slash) path) with
  | .error r => .error ⟨"mkdir", path, r⟩
  | .ok ns =>
    match t.get? ns, t.get? ns.dropLast with
    | some _, _ => .error ⟨"mkdir", path, .occupied⟩
    | none, some .directory => .ok (t.put ns .directory)
    | none, some (.file _) => .error ⟨"mkdir", path, .notDirectory⟩
    | none, none => .error ⟨"mkdir", path, .notFound⟩

/-- The tree with a directory at a path, which may be there already. -/
def ensureDirectory (t : Tree) (path : Text) : Except FileError Tree :=
  match t.makeDirectory path with
  | .ok t => .ok t
  | .error e =>
    match t.stat path with
    | .ok .directory => .ok t
    | _ => .error e

/-- The tree with a directory at a path, and with the directories that it lies in.  The fuel bounds
the number of these. -/
def makeDirectoriesWithin : (fuel : Nat) → Tree → Text → Except FileError Tree
  | 0, _, path => .error ⟨"mkdir", path, .notFound⟩
  | fuel + 1, t, path =>
    match t.stat path with
    | .ok .directory => .ok t
    | .ok (.file _) => .error ⟨"mkdir", path, .notDirectory⟩
    | .error _ => do
      let t ← match Path.parent? path with
        | some dir => makeDirectoriesWithin fuel t dir
        | none => .ok t
      t.ensureDirectory path

/-- The tree with a directory at a path, and with the directories that it lies in. -/
def makeDirectories (t : Tree) (path : Text) : Except FileError Tree :=
  makeDirectoriesWithin (path.length + 1) t path

/-- The absolute path of the working directory. -/
def workingPath (t : Tree) : Text := "/" ++ join "/" t.working

/-- The absolute path for a path. -/
def absolute (t : Tree) (path : Text) : Text :=
  if Path.isAbsolute path then Path.clean path else Path.append t.workingPath path

/-- The directories that some names lead through, each with its own names. -/
def directoriesTo : List Text → List (List Text)
  | [] => []
  | [_] => []
  | n :: ns => [n] :: (directoriesTo ns).map (n :: ·)

/-- The tree with a directory at the end of each of some names, as far as nothing is there. -/
def withDirectories (t : Tree) : List (List Text) → Tree
  | [] => t
  | ns :: rest => withDirectories (if (t.get? ns).isSome then t else t.put ns .directory) rest

/-- The tree with a file below its working directory, and with the directories that it lies in. -/
def withFile (t : Tree) (path content : Text) : Tree :=
  let ns := t.working ++ Path.names path
  (t.withDirectories (directoriesTo ns)).put ns (.file content)

/-- The tree that has only its working directory, and the directories that this lies in. -/
def empty (working : List Text) : Tree :=
  (Tree.mk [] working).withDirectories (directoriesTo working ++ [working])

/-- The files below a place, by the names that lead there from it. -/
def filesBelow (t : Tree) (place : List Text) : List (List Text × Text) :=
  t.nodes.filterMap fun (ns, n) =>
    match n with
    | .file content => if place.isPrefixOf ns then some (ns.drop place.length, content) else none
    | .directory => none

/-- The files below the working directory that another tree has not, or not with the same
content. -/
def newSince (t before : Tree) : List (List Text × Text) :=
  (t.filesBelow t.working).filter fun (ns, content) =>
    before.get? (t.working ++ ns) != some (.file content)

end Tree

end DtoSchema
