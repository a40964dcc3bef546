import DtoSchema.Source.Nesting

/-!
# Annotations

An annotation is written `@Name` or `@Name(arguments)`, in one of the dialects also with the target
that it applies to, as in `@field:Name`.  Names may be dotted.  Arguments are separated by top level
commas; one of the form `key = value` is named, every other one is positional.
-/

namespace DtoSchema

open Text Source

/-- One annotation as it stands in a source. -/
structure Mark where
  /-- The target before the colon, empty if there is none. -/
  target : Text := []
  /-- The name as written, possibly dotted. -/
  name : Text := []
  /-- The text between the parentheses, if there are parentheses. -/
  body : Option Text := none
  /-- The whole annotation as written. -/
  text : Text := []
  deriving DecidableEq, Repr

/-- An argument of an annotation. -/
structure Mark.Argument where
  /-- The key of a named argument. -/
  key : Option Text := none
  /-- The value, trimmed. -/
  value : Text
  deriving DecidableEq, Repr

namespace Mark

/-! ### Reading -/

/-- The longest dotted name at the start of a text, and what follows it.  A dot belongs to the name
if an identifier follows. -/
def nameSpan : Text → Text × Text
  | [] => ([], [])
  | b :: s =>
    if isIdentPart b || (b == ascii '.' && s.head?.any isIdentStart) then consFirst b (nameSpan s)
    else ([], b :: s)

/-- The name after a colon, if an identifier stands there. -/
def afterColon? : Text → Option (Text × Text)
  | [] => none
  | b :: s => if b = ascii ':' ∧ s.head?.any isIdentStart then some (nameSpan s) else none

/-- The annotation at the start of a text.  A name has to follow the `@`; parentheses that are never
closed do not belong to the annotation. -/
def read? : Text → Option Mark
  | [] => none
  | mark :: s =>
    if mark ≠ ascii '@' then none
    else
      let (first, afterFirst) := nameSpan s
      if first.isEmpty then none
      else
        let (target, name, rest) :=
          match afterColon? afterFirst with
          | some (name, rest) => (first, name, rest)
          | none => ([], first, afterFirst)
        let head := (mark :: s).take (s.length + 1 - rest.length)
        match readBalanced? (ascii '(') (ascii ')') (skipGaps rest) with
        | some (body, _) =>
          let gap := rest.takeWhile isGap
          some ⟨target, name, some body, head ++ gap ++ ascii '(' :: body ++ ")"⟩
        | none => some ⟨target, name, none, head⟩

/-- `readAll` from inside a text: the number counts the bytes of the last annotation that are still
to be passed. -/
def readAllFrom : Nat → Text → List Mark
  | _, [] => []
  | k + 1, _ :: s => readAllFrom k s
  | 0, b :: s =>
    match read? (b :: s) with
    | some a => a :: readAllFrom (a.text.length - 1) s
    | none => readAllFrom 0 s

/-- The annotations in a text, in order. -/
def readAll (s : Text) : List Mark := readAllFrom 0 s

/-- `afterLeading` from inside a text: the number counts the bytes still to be passed. -/
def afterLeadingFrom : Nat → Text → Text
  | _, [] => []
  | k + 1, _ :: s => afterLeadingFrom k s
  | 0, b :: s =>
    if isGap b then afterLeadingFrom 0 s
    else match read? (b :: s) with
      | some a => afterLeadingFrom (a.text.length - 1) s
      | none => b :: s

/-- The text after the annotations and gaps at its start. -/
def afterLeading (s : Text) : Text := afterLeadingFrom 0 s

/-- The offset at which the annotations and gaps at the start of a text end. -/
def leadingEnd (s : Text) : Nat := s.length - (afterLeading s).length

/-! ### Parts -/

/-- The last segment of the name. -/
def simpleName (a : Mark) : Text :=
  match cutLast? (ascii '.') a.name with
  | some (_, last) => last
  | none => a.name

/-- A part of the body as an argument.  It is named if an identifier stands before its first top
level equals sign. -/
def Argument.ofPart (part : Text) : Argument :=
  match topLevelIndex? (ascii '=') part with
  | some i =>
    let key := trim (part.take i)
    if isIdent key then ⟨some key, trim (part.drop (i + 1))⟩ else ⟨none, part⟩
  | none => ⟨none, part⟩

/-- The arguments in order; blank parts of the body are none. -/
def arguments (a : Mark) : List Argument :=
  match a.body with
  | none => []
  | some body =>
    (((splitTopLevel (ascii ',') body).map trim).filter (!·.isEmpty)).map Argument.ofPart

/-- The label of an argument: its key, and the empty text for a positional argument. -/
def Argument.label (arg : Argument) : Text := arg.key.getD []

/-- The value of the first argument labelled `key`. -/
def named? (a : Mark) (key : Text) : Option Text :=
  (a.arguments.find? (·.label == key)).map (·.value)

/-- The value of the positional argument number `i`. -/
def positional? (a : Mark) (i : Nat) : Option Text :=
  ((a.arguments.filter (·.key.isNone))[i]?).map (·.value)

/-- The argument that stands for the annotation's value: the one named `value`, or else the first
positional one. -/
def value? (a : Mark) : Option Text := (a.named? "value").or (a.positional? 0)

end Mark

end DtoSchema
