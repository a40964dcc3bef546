import DtoSchema.Source.Nesting

/-!
# The parts of a declared type

A declared type is a name, a name with arguments in angle brackets, or an array of one of these.
This module takes the text of a type apart: wrappers that make no difference to the schema are
removed, bracket pairs are counted, and names are separated from arguments and qualifiers.
-/

namespace DtoSchema.Schema

open Text Source

/-- The non-empty text between the angle brackets that enclose a text, after gaps. -/
def angleContent? (s : Text) : Option Text :=
  match skipGaps s with
  | opening :: rest =>
    if opening = ascii '<' ∧ rest.getLast? = some (ascii '>') ∧ rest.dropLast ≠ [] then
      some rest.dropLast
    else none
  | [] => none

/-- The arguments of the generic type `name<arguments>`. -/
def argumentsOf? (name s : Text) : Option Text := (afterPrefix? name s).bind angleContent?

/-- A generic array is written with a bracket pair. -/
def unwrapArray (s : Text) : Text :=
  match argumentsOf? "Array" s with
  | some inner => trim inner ++ "[]"
  | none => s

/-- The collections that have a mutable variant. -/
def mutableCollections : List Text := ["List", "Set", "Map"]

/-- A mutable collection is a collection. -/
def dropMutable (s : Text) : Text :=
  let base? := (afterPrefix? "Mutable" s).bind fun rest =>
    mutableCollections.findSome? fun name =>
      (afterPrefix? name rest).bind fun rest =>
        (afterPrefix? "<" (skipGaps rest)).map fun rest => name ++ "<" ++ rest
  base?.getD s

/-- An optional type is the type inside; whether the value is optional is decided elsewhere. -/
def unwrapOptional (s : Text) : Text :=
  match argumentsOf? "Optional" ((afterPrefix? "java.util." s).getD s) with
  | some inner => trim inner
  | none => s

/-- The type without what makes no difference to its schema. -/
def unwrap (s : Text) : Text :=
  let s := collapse s
  unwrapOptional (dropMutable (unwrapArray ((afterPrefix? "final " s).getD s)))

/-- The type without one bracket pair at its end, if it ends in one. -/
def memberType? (s : Text) : Option Text :=
  match s.reverse with
  | close :: s =>
    if close = ascii ']' then
      match s.dropWhile isGap with
      | opening :: s => if opening = ascii '[' then some (trim s.reverse) else none
      | [] => none
    else none
  | [] => none

/-- The type without the bracket pairs at its end, and their number.  No more than `limit` pairs are
removed. -/
def splitArrayWithin : (limit : Nat) → Text → Text × Nat
  | 0, s => (s, 0)
  | limit + 1, s =>
    match memberType? s with
    | some s => let (t, n) := splitArrayWithin limit s; (t, n + 1)
    | none => (s, 0)

/-- The type without the bracket pairs at its end, and their number. -/
def splitArray (s : Text) : Text × Nat := splitArrayWithin s.length s

/-- The name and the arguments of a generic type. -/
def splitGeneric? : Text → Option (Text × Text)
  | [] => none
  | b :: s =>
    if isIdentStart b then
      let isPart c := isIdentPart c || c == ascii '.'
      (angleContent? (s.dropWhile isPart)).map fun inner => (b :: s.takeWhile isPart, trim inner)
    else none

/-- `simpleName` from inside a name: `found` is the text after the last complete qualifier, and
`inside` says whether an identifier has begun. -/
def simpleNameFrom (found : Text) (inside : Bool) : Text → Text
  | [] => found
  | b :: s =>
    if inside then
      if b = ascii '.' then simpleNameFrom s false s
      else if isIdentPart b then simpleNameFrom found true s
      else found
    else if isIdentStart b then simpleNameFrom found true s
    else found

/-- The name without its qualifiers: identifiers, each followed by a dot. -/
def simpleName (s : Text) : Text := simpleNameFrom s false s

end DtoSchema.Schema
