import DtoSchema.Text.Basic

/-!
# Paths

A path is a text of names with slashes between them.  An absolute path starts with a slash.
-/

namespace DtoSchema.Path

open Text

/-- The slash. -/
def slash : UInt8 := ascii '/'

/-- The path is absolute. -/
def isAbsolute (p : Text) : Bool := p.head? == some slash

/-- The names of a path, empty ones left out. -/
def names (p : Text) : List Text := (pieces slash p).filter (· != [])

/-- The last name of a path.  It is a point for the empty path and a slash for a path of slashes. -/
def base (p : Text) : Text :=
  if p.isEmpty then "." else ((names p).getLast?).getD "/"

/-- What follows the last point of the last name of a path, the point included. -/
def extension (p : Text) : Text :=
  match cutLast? (ascii '.') ((pieces slash p).getLast?.getD []) with
  | some (_, ending) => "." ++ ending
  | none => []

/-- The name without its extension. -/
def stem (name : Text) : Text := name.take (name.length - (extension name).length)

/-- One step of `simplify`: the names so far, nearest first, and the next one. -/
def simplifyStep (absolute : Bool) (done : List Text) (name : Text) : List Text :=
  if name = "." then done
  else if name = ".." then
    match done with
    | [] => if absolute then [] else [".."]
    | last :: before => if last = ".." then name :: done else before
  else name :: done

/-- The names of a path without detours: each name for the parent takes the name before it away.  A
path that is not absolute may start with names for the parent. -/
def simplify (absolute : Bool) (ns : List Text) : List Text :=
  (ns.foldl (simplifyStep absolute) []).reverse

/-- The shortest path that leads to the same place by names alone. -/
def clean (p : Text) : Text :=
  let ns := simplify (isAbsolute p) (names p)
  if isAbsolute p then "/" ++ join "/" ns
  else if ns.isEmpty then "."
  else join "/" ns

/-- The path of a name below a directory. -/
def append (dir name : Text) : Text :=
  if dir.isEmpty && name.isEmpty then []
  else if dir.isEmpty then clean name
  else if name.isEmpty then clean dir
  else clean (dir ++ "/" ++ name)

/-- The directory of a path. -/
def directory (p : Text) : Text :=
  match cutLast? slash p with
  | some (before, _) => clean (before ++ "/")
  | none => "."

/-- The path that a path lies in, without the slash between them, if it has more than one part. -/
def parent? (p : Text) : Option Text :=
  let upToName := dropWhileEnd (· != slash) (dropWhileEnd (· == slash) p)
  if 1 < upToName.length then some upToName.dropLast else none

end DtoSchema.Path
