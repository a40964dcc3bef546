import DtoSchema.Declaration.Java
import DtoSchema.Declaration.Kotlin
import DtoSchema.Text.Letter
import DtoSchema.Text.Quoted

/-!
# Dialects of a source

A source is written in the Java or the Kotlin dialect.  The dialect is either chosen, or found by
looking for constructs that only one of them has.
-/

namespace DtoSchema

open Text Source Declaration

/-- A dialect. -/
inductive Dialect where
  /-- The Java dialect. -/
  | java
  /-- The Kotlin dialect. -/
  | kotlin
  /-- A dialect without a name of its own, which is read as the Java dialect. -/
  | unknown
  deriving DecidableEq, Repr

namespace Dialect

/-- The name of a dialect. -/
def name : Dialect → Text
  | java => "java"
  | kotlin => "kotlin"
  | unknown => "unknown"

/-- The name of a dialect with its type, as used in traces. -/
def tracedName (d : Dialect) : Text := "dialect.Kind(" ++ d.name ++ ")"

/-- The dialect of a given number. -/
def ofNumber (n : Int) : Dialect := if n = 0 then java else if n = 1 then kotlin else unknown

/-- The classes that a source in this dialect declares. -/
def classes : Dialect → Text → List ClassDecl
  | kotlin => Kotlin.classes
  | _ => Java.classes

/-- The enumerations that a source in this dialect declares. -/
def enums : Dialect → Text → List EnumDecl
  | kotlin => Kotlin.enums
  | _ => Java.enums

/-! ### Choice -/

/-- A choice of dialect. -/
inductive Choice where
  /-- The dialect is to be found. -/
  | auto
  /-- The Java dialect. -/
  | java
  /-- The Kotlin dialect. -/
  | kotlin
  deriving DecidableEq, Repr

namespace Choice

/-- The name of a choice. -/
def name : Choice → Text
  | auto => "auto"
  | java => "java"
  | kotlin => "kotlin"

/-- The choice with exactly the given name; any other text leaves the dialect to be found. -/
def ofName (s : Text) : Choice :=
  if s = "java" then java else if s = "kotlin" then kotlin else auto

/-- The text in small letters, with the replacement character for stray bytes. -/
def lowered (s : Text) : Text := ofChars ((chars s).map Letter.toLower)

/-- The choice that a user's text names, without regard to case and surrounding white space.  The
empty text leaves the dialect to be found. -/
def parse? (s : Text) : Option Choice :=
  let name := lowered (trim s)
  if name = [] ∨ name = "auto" then some auto
  else if name = "java" then some java
  else if name = "kotlin" then some kotlin
  else none

/-- The message that a text names no dialect. -/
def unknownMessage (s : Text) : Text := "unknown dialect " ++ quoted s ++ " (auto|java|kotlin)"

/-- The dialect that a choice pins. -/
def forced? : Choice → Option Dialect
  | auto => none
  | java => some .java
  | kotlin => some .kotlin

end Choice

/-! ### Evidence -/

/-- A construct that speaks for a dialect. -/
structure Hint where
  /-- The dialect that it speaks for. -/
  dialect : Dialect := .java
  /-- How much it counts. -/
  score : Int := 0
  /-- What was found. -/
  reason : Text := []
  /-- Where it was found. -/
  offset : Int := 0
  deriving DecidableEq, Repr

/-- The keyword `first` followed by the keyword `class`, both as whole words. -/
def keywordPairAt (first : Text) (prev : Option UInt8) (s : Text) : Option (Unit × Nat) :=
  if atBoundary prev s then
    (afterKeywords? [first, "class"] s).bind fun rest =>
      if rest.head?.any isWord then none else some ((), s.length - rest.length)
  else none

/-- A declaration `val name :` or `var name :`. -/
def valueDeclarationAt (prev : Option UInt8) (s : Text) : Option (Unit × Nat) :=
  if atBoundary prev s then
    ((afterPrefix? "val" s).or (afterPrefix? "var" s)).bind fun rest =>
      (nameAfterGaps? isWord isWord rest).bind fun name =>
        (afterPrefix? ":" (skipGaps ((skipGaps rest).drop name.length))).map fun rest =>
          ((), s.length - rest.length)
  else none

/-- The constructs that only the Kotlin dialect has, with their scores and descriptions. -/
def signals : List ((Option UInt8 → Text → Option (Unit × Nat)) × Int × Text) :=
  [(keywordPairAt "enum", 5, "kotlin keyword pair `enum class`"),
    (keywordPairAt "data", 5, "kotlin keyword pair `data class`"),
    (valueDeclarationAt, 3, "kotlin declaration `val|var name :`")]

/-- The hints that a text gives: for each construct its first occurrence. -/
def observe (s : Text) : List Hint :=
  signals.filterMap fun (pattern, score, reason) =>
    (occurrences pattern s).head?.map fun o => ⟨.kotlin, score, reason, o.offset⟩

/-- What hints say about a dialect. -/
structure Classification where
  /-- The dialect that they speak for. -/
  dialect : Dialect
  /-- The sum of the scores for it, in 64 bits. -/
  score : Int
  /-- The hints. -/
  hints : List Hint
  deriving DecidableEq, Repr

/-- The dialect that hints speak for: any hint for Kotlin with a positive score decides, and without
one it is Java. -/
def classify (hints : List Hint) : Classification :=
  let scores := (hints.filter fun h => h.dialect == .kotlin && 0 < h.score).map (·.score)
  ⟨if scores.isEmpty then .java else .kotlin, wrapInt64 (scores.foldl (· + ·) 0), hints⟩

/-- The dialect of a text. -/
def detect (s : Text) : Classification := classify (observe s)

end Dialect

end DtoSchema
