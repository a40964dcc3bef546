import DtoSchema.Text.Letter
import DtoSchema.Text.Symbol

/-!
# The words of a name

To compare names, a name is reduced to the letters of its words: its qualifier is dropped, it is cut
into words at separators and at changes of case, and the words are written in small letters without
anything between them.  Names of data types often end in a word that says so; a second form of the
name has that ending removed.
-/

namespace DtoSchema.Naming

open Text

/-- The characters that separate words. -/
def isSeparator (c : Char) : Bool := c == '_' || c == '-' || c == ' ' || c == '$'

/-- A word starts at the capital letter `c`, given the characters before and after it: after
anything but a capital or a separator, and as the last capital of a run that a small letter
follows. -/
def startsWord (prev c : Char) (next : Option Char) : Bool :=
  Letter.isUpper c &&
    (!Letter.isUpper prev && !isSeparator prev ||
      Letter.isUpper prev && next.any Letter.isLower)

/-- The non-empty list `word`, if it is one, before the words `words`. -/
def consWord (word : List Char) (words : List (List Char)) : List (List Char) :=
  if word.isEmpty then words else word :: words

/-- `words` from inside a name, given the character before and the word begun so far. -/
def wordsFrom (prev : Option Char) (begun : List Char) : List Char → List (List Char)
  | [] => consWord begun []
  | c :: cs =>
    if isSeparator c then consWord begun (wordsFrom (some c) [] cs)
    else if prev.any (startsWord · c cs.head?) then consWord begun (wordsFrom (some c) [c] cs)
    else wordsFrom (some c) (begun ++ [c]) cs

/-- The words of a name without qualifier. -/
def words (cs : List Char) : List (List Char) := wordsFrom none [] cs

/-- The name after its last dot. -/
def unqualified (s : Text) : Text :=
  match cutLast? (ascii '.') s with
  | some (_, last) => last
  | none => s

/-- The letters of the words of a name, in small letters. -/
def normalize (s : Text) : Text :=
  let lowered := (words (chars (unqualified s))).flatten.map Letter.toLower
  ofChars (lowered.filter (!isSeparator ·))

/-- The endings by which names of data types say that they are such. -/
def endings : List Text := ["entity", "model", "dto", "vo"]

/-- The normalized name without the first of the endings that it has, if something remains. -/
def normalizeStem (s : Text) : Text :=
  let name := normalize s
  match endings.find? fun e => endsWith name e && e.length < name.length with
  | some e => name.take (name.length - e.length)
  | none => name

end DtoSchema.Naming
