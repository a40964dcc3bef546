import DtoSchema.Text.Basic

/-!
# Literals in the code of schemas

Keys and values are written as names where possible and otherwise between single quotes; patterns
are written between slashes.
-/

namespace DtoSchema.Schema

open Text

/-- The text between single quotes, with backslashes and single quotes escaped. -/
def quoteText (s : Text) : Text :=
  let escape b := if b = ascii '\\' ∨ b = ascii '\'' then [ascii '\\', b] else [b]
  "'" ++ s.flatMap escape ++ "'"

/-- The text is a name that needs no quotes as a key. -/
def isBareKey : Text → Bool
  | [] => false
  | b :: s => (isLetter b || b == ascii '_') && s.all isWord

/-- A key of an object. -/
def quoteKey (s : Text) : Text := if isBareKey s then s else quoteText s

/-- The text with every pair of backslashes written as one. -/
def halveBackslashes (s : Text) : Text := replaceAll "\\\\" "\\" s

/-- A byte of a pattern as it is written between slashes. -/
def patternByte (b : UInt8) : Text :=
  if b = ascii '\r' then "\\r"
  else if b = ascii '\n' then "\\n"
  else if b = ascii '\t' then "\\t"
  else if b = ascii '/' then "\\/"
  else [b]

/-- The literal of a regular expression, from its text as it stands in a source.  Pairs of
backslashes are halved three times over. -/
def regexLiteral (pattern : Text) : Text :=
  let s := halveBackslashes (halveBackslashes (halveBackslashes pattern))
  "/" ++ s.flatMap patternByte ++ "/"

end DtoSchema.Schema
