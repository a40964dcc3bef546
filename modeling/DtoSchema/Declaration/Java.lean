import DtoSchema.Declaration.Header

/-!
# Declarations in the Java dialect

A class body is read as a sequence of pieces: literals, parenthesized groups, brace blocks and
single bytes.  From the pieces come its statements, and a statement that declares fields gives one
field for each of its declarators.
-/

namespace DtoSchema.Declaration.Java

open Text Source

/-- The words that may stand before a declaration. -/
def modifiers : List Text :=
  ["public", "private", "protected", "static", "final", "transient", "volatile", "abstract",
    "synchronized", "native", "default"]

/-- The words that start the declaration of a type. -/
def typeWords : List Text := ["class", "interface", "enum", "record"]

/-! ### Statements -/

/-- A piece of a class body. -/
inductive Piece where
  /-- A byte outside of literals, groups and blocks. -/
  | byte (b : UInt8)
  /-- A literal with its quotes, or a parenthesized group with its parentheses. -/
  | closed (text : Text)
  /-- A brace block with its braces. -/
  | block (text : Text)
  deriving DecidableEq, Repr

/-- `bodyPieces` from inside a body: the number counts the bytes of the last piece that are still to
be passed. -/
def bodyPiecesFrom : Nat → Text → List Piece
  | _, [] => []
  | k + 1, _ :: s => bodyPiecesFrom k s
  | 0, b :: s =>
    if isQuote b then
      let w := literalWidth (.inside b) s
      .closed (b :: s.take w) :: bodyPiecesFrom w s
    else if b = ascii '(' then
      match readBalanced? b (ascii ')') (b :: s) with
      | some (content, _) =>
        .closed (b :: content ++ ")") :: bodyPiecesFrom (content.length + 1) s
      | none => .byte b :: bodyPiecesFrom 0 s
    else if b = ascii '\x7b' then
      match readBalanced? b (ascii '\x7d') (b :: s) with
      | some (content, _) =>
        .block (b :: content ++ [ascii '\x7d']) :: bodyPiecesFrom (content.length + 1) s
      | none => []
    else .byte b :: bodyPiecesFrom 0 s

/-- The pieces of a class body.  They end before a brace that is never closed; a parenthesis that is
never closed is a piece of its own. -/
def bodyPieces (body : Text) : List Piece := bodyPiecesFrom 0 body

/-- The statements that pieces form, given the statement begun so far.  A semicolon ends a
statement. A block belongs to its statement only after an equals sign, as an array initializer or an
anonymous class does; otherwise it is the body of a method, an initializer or a type, and the
statement is dropped with it. -/
def statementsFrom (begun : Text) : List Piece → List Text
  | [] => []
  | .byte b :: ps =>
    if b = ascii ';' then begun :: statementsFrom [] ps else statementsFrom (begun ++ [b]) ps
  | .closed t :: ps => statementsFrom (begun ++ t) ps
  | .block t :: ps =>
    if (topLevelIndex? (ascii '=') begun).isSome then statementsFrom (begun ++ t) ps
    else statementsFrom [] ps

/-- The statements of a class body. -/
def statements (body : Text) : List Text := statementsFrom [] (bodyPieces body)

/-! ### Declarators -/

/-- The declarator without its initializer. -/
def dropInitializer (s : Text) : Text := trim (beforeTopLevel (ascii '=') s)

/-- The trimmed text without one pair of square brackets at its end, if it ends in one. -/
def dropPair? (s : Text) : Option Text :=
  match s.reverse with
  | close :: s =>
    if close = ascii ']' then
      match (trim s.reverse).reverse with
      | opening :: s => if opening = ascii '[' then some s.reverse else none
      | [] => none
    else none
  | [] => none

/-- The text without the bracket pairs at its end, and their number.  No more than `limit` pairs are
removed. -/
def dropPairs : (limit : Nat) → Text → Text × Nat
  | 0, s => (trim s, 0)
  | limit + 1, s =>
    match dropPair? (trim s) with
    | some s => let (t, n) := dropPairs limit s; (t, n + 1)
    | none => (trim s, 0)

/-- The trimmed text without the bracket pairs at its end, and their number. -/
def splitPairs (s : Text) : Text × Nat := dropPairs s.length s

/-- The type, the name and the number of bracket pairs of a first declarator `Type name[]`. -/
def typeAndName? (s : Text) : Option (Text × Text × Nat) :=
  let (s, pairs) := splitPairs s
  let name := (s.reverse.takeWhile isIdentPart).reverse
  let type := trim (s.take (s.length - name.length))
  if isIdent name ∧ type ≠ [] then some (type, name, pairs) else none

/-- The name and the number of bracket pairs of a further declarator `name[]`. -/
def nameAndPairs? (s : Text) : Option (Text × Nat) :=
  let (s, pairs) := splitPairs s
  if isIdent s then some (s, pairs) else none

/-! ### Fields -/

/-- A name directly before an opening parenthesis, gaps apart, at the start of a text. -/
def callAt (s : Text) : Bool :=
  match s with
  | [] => false
  | b :: s => isIdentStart b && (skipGaps (s.dropWhile isIdentPart)).head? == some (ascii '(')

/-- The text holds a name directly before an opening parenthesis: it declares a method. -/
def hasCall : Text → Bool
  | [] => false
  | b :: s => callAt (b :: s) || hasCall s

/-- The type is an optional wrapper. -/
def isOptionalType (type : Text) : Bool :=
  let s := (afterPrefix? "java.util." type).getD type
  match afterPrefix? "Optional" s with
  | some s => (skipGaps s).head? == some (ascii '<')
  | none => false

/-- The type followed by bracket pairs. -/
def arrayOf (type : Text) (pairs : Nat) : Text := type ++ (List.replicate pairs "[]").flatMap utf8

/-- The fields that a statement declares, in order.  A statement that declares a type or a method
declares none. -/
def statementFields (statement : Text) : List Field :=
  match leadingMarks? spaces (· ∈ modifiers) (trimEnd statement) with
  | none => []
  | some (marks, rest) =>
    if leadingIdent rest ∈ typeWords ∨ hasCall (beforeTopLevel (ascii '=') rest) then []
    else
      match splitTopLevel (ascii ',') rest with
      | [] => []
      | first :: more =>
        match typeAndName? (dropInitializer first) with
        | none => []
        | some (type, name, pairs) =>
          let constraints := Constraints.ofJava marks
          let optional := constraints.nullable || isOptionalType type
          let field name pairs := Field.declare name (arrayOf type pairs) optional constraints
          field name pairs :: (more.filterMap (nameAndPairs? ∘ dropInitializer)).map
            fun (name, pairs) => field name pairs

/-- The fields that a class body declares, in order. -/
def bodyFields (body : Text) : List Field := (statements body).flatMap statementFields

/-! ### Classes and enumerations -/

/-- The header of a class at a place of a text. -/
def classHeader? : Option UInt8 → Text → Option (Text × Nat) :=
  header? ["class"] isIdentStart isIdentPart

/-- The header of an enumeration at a place of a text. -/
def enumHeader? : Option UInt8 → Text → Option (Text × Nat) :=
  header? ["enum"] isIdentStart isIdentPart

/-- The enumerations of a source, in order. -/
def enums (s : Text) : List EnumDecl := Declaration.enums enumHeader? s

/-- The class that a header introduces, if it has a body. -/
def classAt? (o : Occurrence Text) : Option ClassDecl :=
  if isMember o.before || wordBefore o.before == utf8 "enum" then none
  else (body? o.after).map fun body => ⟨o.value, dedupFields (bodyFields body)⟩

/-- The classes of a source, in order; nested classes stand beside the others, and classes of one
name are merged. -/
def classes (s : Text) : List ClassDecl :=
  coalesce ((occurrences classHeader? s).filterMap classAt?)

end DtoSchema.Declaration.Java
