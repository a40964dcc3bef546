import DtoSchema.Declaration.Basic
import DtoSchema.Source.Comments

/-!
# Headers of declarations

A declaration starts with a keyword and a name; its body is the brace block after its header.  The
text between them may hold type parameters, constructor parameters and supertypes.  This module
finds the body of a header, looks at the words before one, and reads enumerations, whose shape is
the same in both dialects up to the keyword.
-/

namespace DtoSchema.Declaration

open Text Source

/-- The words that start a new declaration.  One of them between a header and a brace means that the
brace belongs to another declaration. -/
def declarationWords : List Text :=
  ["class", "interface", "object", "enum", "record", "fun", "val", "var", "typealias", "annotation",
    "data", "package", "import"]

/-! ### Keyword and name -/

/-- The text after the gaps at its start, of which there has to be one. -/
def afterGaps? (s : Text) : Option Text :=
  if s.head?.any isGap then some (skipGaps s) else none

/-- The name after the gaps at the start of a text: a byte of the class `start` and the bytes of the
class `part` that follow it. -/
def nameAfterGaps? (start part : UInt8 → Bool) (s : Text) : Option Text :=
  match afterGaps? s with
  | some (b :: rest) => if start b then some (b :: rest.takeWhile part) else none
  | _ => none

/-- What follows keywords that are separated by gaps at the start of a text. -/
def afterKeywords? : List Text → Text → Option Text
  | [], s => some s
  | [k], s => afterPrefix? k s
  | k :: ks, s => ((afterPrefix? k s).bind afterGaps?).bind (afterKeywords? ks)

/-- A header at a place of a text: the given keywords, separated by gaps and starting at a word
boundary, and a name after them.  Answers with the name and the width of all. -/
def header? (keywords : List Text) (start part : UInt8 → Bool) (prev : Option UInt8) (s : Text) :
    Option (Text × Nat) :=
  if atBoundary prev s then
    (afterKeywords? keywords s).bind fun rest =>
      (nameAfterGaps? start part rest).map fun name =>
        (name, s.length - (skipGaps rest).length + name.length)
  else none

/-! ### The text before a header -/

/-- The word right before a place, given the text before it, nearest byte first.  Blanks and line
ends in between are passed over. -/
def wordBefore (before : Text) : Text :=
  let isPassed b := isBlank b || b == ascii '\n' || b == ascii '\r'
  ((before.dropWhile isPassed).takeWhile isIdentPart).reverse

/-- The keyword is used as a member, as in `Name.class` and `Name::class`, given the text before it,
nearest byte first. -/
def isMember (before : Text) : Bool :=
  (before.dropWhile isBlank).head?.any fun b => b == ascii '.' || b == ascii ':'

/-! ### Annotations and modifiers -/

/-- `leadingMarks?` from inside a text: the number counts the bytes still to be passed. -/
def leadingMarksFrom? (blanks : List Text) (isModifier : Text → Bool) :
    Nat → Text → Option (Text × Text)
  | _, [] => some ([], [])
  | k + 1, _ :: s => leadingMarksFrom? blanks isModifier k s
  | 0, b :: s =>
    match leadingWidth blanks (b :: s) with
    | w + 1 => leadingMarksFrom? blanks isModifier w s
    | 0 =>
      if b = ascii '@' then
        (Mark.read? (b :: s)).bind fun a =>
          (leadingMarksFrom? blanks isModifier (a.text.length - 1) s).map fun (marks, rest) =>
            (a.text ++ " " ++ marks, rest)
      else
        let word := identAt (b :: s)
        if isModifier word then leadingMarksFrom? blanks isModifier (word.length - 1) s
        else some ([], b :: s)

/-- The annotations among the annotations and modifiers at the start of a text, each followed by a
space, and the text after all of them.  The members of `blanks` may stand in between.  There is no
answer if an `@` starts no annotation. -/
def leadingMarks? (blanks : List Text) (isModifier : Text → Bool) (s : Text) :
    Option (Text × Text) :=
  leadingMarksFrom? blanks isModifier 0 s

/-! ### The body -/

/-- `bodyStart?` from inside a text: the number counts the bytes still to be passed. -/
def bodyStartFrom? : Nat → Text → Option Text
  | _, [] => none
  | k + 1, _ :: s => bodyStartFrom? k s
  | 0, b :: s =>
    if b = ascii '\x7b' then some (b :: s)
    else if b = ascii '(' then
      (readBalanced? b (ascii ')') (b :: s)).bind fun (content, _) =>
        bodyStartFrom? (content.length + 1) s
    else if b = ascii '<' then
      (readBalanced? b (ascii '>') (b :: s)).bind fun (content, _) =>
        bodyStartFrom? (content.length + 1) s
    else if b = ascii ';' ∨ b = ascii '\x7d' ∨ b = ascii '=' ∨ b = ascii ')' then none
    else
      let word := identAt (b :: s)
      if word ∈ declarationWords then none else bodyStartFrom? (word.length - 1) s

/-- The text from the brace that opens the body of a declaration, given the text after its header.
There is none if the header ends otherwise or another declaration starts before. -/
def bodyStart? (s : Text) : Option Text := bodyStartFrom? 0 s

/-- The content of the body of a declaration, given the text after its header. -/
def body? (s : Text) : Option Text :=
  (bodyStart? s).bind fun s => (readBalanced? (ascii '\x7b') (ascii '\x7d') s).map (·.1)

/-! ### Enumerations -/

/-- The constants that the body of an enumeration lists.  Members after the first semicolon are
none, and of a constant only its name counts, not its annotations, arguments or body. -/
def enumValues (body : Text) : List Text :=
  let listed :=
    match topLevelSemicolon? body with
    | some i => body.take i
    | none => body
  (((splitTopLevel (ascii ',') listed).map fun item =>
    leadingIdent (Mark.afterLeading (trim item)))).filter (!·.isEmpty)

/-- The enumerations of a text whose headers `header` recognises, in order.  One without constants
is left out. -/
def enums (header : Option UInt8 → Text → Option (Text × Nat)) (s : Text) : List EnumDecl :=
  (occurrences header s).filterMap fun o =>
    if o.value ∈ declarationWords then none
    else match (body? o.after).map enumValues with
      | none | some [] => none
      | some values => some ⟨o.value, values⟩

end DtoSchema.Declaration
