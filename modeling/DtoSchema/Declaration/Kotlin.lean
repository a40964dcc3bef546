import DtoSchema.Declaration.Header

/-!
# Declarations in the Kotlin dialect

The fields of a class are the properties among the parameters of its primary constructor, followed
by the properties that its body declares at the top level.  Statements end at line ends, so nested
blocks are blanked before a body is cut into statements.
-/

namespace DtoSchema.Declaration.Kotlin

open Text Source

/-- The words that may stand before a property. -/
def modifiers : List Text :=
  ["public", "private", "protected", "internal", "override", "open", "final", "abstract",
    "lateinit", "const", "vararg"]

/-! ### Types -/

/-- The word `name` at a word boundary, with an opening parenthesis after it, gaps apart. -/
def accessorAt (name : Text) (prev : Option UInt8) (s : Text) : Bool :=
  atBoundary prev s &&
    match afterPrefix? name s with
    | some s => (skipGaps s).head? == some (ascii '(')
    | none => false

/-- A gap, the word `by` and another gap. -/
def delegateAt (s : Text) : Bool :=
  s.head?.any isGap &&
    match afterPrefix? "by" (skipGaps s) with
    | some s => s.head?.any isGap
    | none => false

/-- A declared type ends here: at a brace, a delegate or an accessor. -/
def typeEndsAt (prev : Option UInt8) (s : Text) : Bool :=
  delegateAt s || s.head? == some (ascii '\x7b') || accessorAt "get" prev s ||
    accessorAt "set" prev s

/-- The text up to the place where a declared type ends. -/
def typeSpan (prev : Option UInt8) : Text → Text
  | [] => []
  | b :: s => if typeEndsAt prev (b :: s) then [] else b :: typeSpan (some b) s

/-- The declared type at the start of a text, without a default value, delegate or accessor. -/
def typeText (s : Text) : Text := trim (typeSpan none (beforeTopLevel (ascii '=') s))

/-! ### Properties -/

/-- The property that a text declares as `val name: Type` or `var name: Type`, after annotations and
modifiers. -/
def property? (s : Text) : Option Field := do
  let (marks, rest) ← leadingMarks? spaces (· ∈ modifiers) (trimEnd s)
  let keyword := leadingIdent rest
  guard (keyword = "val" ∨ keyword = "var")
  let rest := trim (rest.drop keyword.length)
  let name := leadingIdent rest
  guard (name ≠ [])
  let rest ← afterPrefix? ":" (trim (rest.drop name.length))
  let type := typeText rest
  guard (type ≠ [])
  let constraints := Constraints.ofKotlin marks
  match type.reverse with
  | mark :: base =>
    if mark = ascii '?' then some (Field.declare name (trim base.reverse) true constraints)
    else some (Field.declare name type constraints.nullable constraints)
  | [] => none

/-- The properties among the parameters of a constructor; a parameter without keyword is none. -/
def parameterFields (params : Text) : List Field :=
  (splitTopLevel (ascii ',') params).filterMap property?

/-- The statements of a text: its parts between line feeds and semicolons outside of literals,
parentheses and square brackets. -/
def statements (s : Text) : List Text :=
  dropEmptyEnd (segments .parens (fun b => b == ascii '\n' || b == ascii ';') {} s)

/-- The properties that statements declare.  A statement of annotations alone belongs to the next
one; `pending` holds those seen so far. -/
def propertiesFrom (pending : Text) : List Text → List Field
  | [] => []
  | s :: ss =>
    let s := trim s
    if s.isEmpty then propertiesFrom pending ss
    else if (Mark.afterLeading s).isEmpty then propertiesFrom (pending ++ s ++ " ") ss
    else (property? (pending ++ s)).toList ++ propertiesFrom [] ss

/-- The properties that a class body declares at its top level, in order. -/
def bodyFields (body : Text) : List Field := propertiesFrom [] (statements (blankNested body))

/-! ### Classes and enumerations -/

/-- The gaps that may stand between the parts of a header. -/
def gaps : List Text := [" ", "\t", "\n", "\r", "\x0c"]

/-- The type parameters, if any, at the start of the text after a class name are passed over. -/
def afterTypeParameters? (s : Text) : Option Text :=
  match skipGaps s with
  | [] => some []
  | b :: s =>
    if b = ascii '<' then (readBalanced? b (ascii '>') (b :: s)).map (·.2) else some (b :: s)

/-- The parameters of the primary constructor after a class name, and the text after them. -/
def primaryConstructor? (s : Text) : Option (Text × Text) := do
  let s ← afterTypeParameters? s
  let (_, s) ← leadingMarks? gaps (fun w => w ∈ modifiers || w == utf8 "constructor") s
  readBalanced? (ascii '(') (ascii ')') s

/-- A byte that starts a class name. -/
def isNameStart (b : UInt8) : Bool := isLetter b || b == ascii '_'

/-- The header of a class at a place of a text. -/
def classHeader? : Option UInt8 → Text → Option (Text × Nat) :=
  header? ["class"] isNameStart isWord

/-- The header of an enumeration at a place of a text. -/
def enumHeader? : Option UInt8 → Text → Option (Text × Nat) :=
  header? ["enum", "class"] isNameStart isWord

/-- The enumerations of a source, in order. -/
def enums (s : Text) : List EnumDecl := Declaration.enums enumHeader? s

/-- The class that a header introduces, if it is one of a class with fields. -/
def classAt? (o : Occurrence Text) : Option ClassDecl :=
  let word := wordBefore o.before
  if isMember o.before || word == utf8 "enum" || word == utf8 "annotation" then none
  else
    let (params, rest) := (primaryConstructor? o.after).getD ([], o.after)
    let members := ((body? rest).map bodyFields).getD []
    some ⟨o.value, dedupFields (parameterFields params ++ members)⟩

/-- The classes of a source, in order; nested classes stand beside the others, and classes of one
name are merged. -/
def classes (s : Text) : List ClassDecl :=
  coalesce ((occurrences classHeader? s).filterMap classAt?)

end DtoSchema.Declaration.Kotlin
