import DtoSchema.Document.Basic
import DtoSchema.Text.Quoted

/-!
# Documents in JSON

A document is written over several lines, two spaces for each level.  The characters that would be
special inside of a web page are escaped, and so are control characters and the two line separators.
-/

namespace DtoSchema.Document

open Text

/-- A character of a text as it stands between the quotes. -/
def jsonChar (c : Char) : Text :=
  match c with
  | '"' => "\\\""
  | '\\' => "\\\\"
  | '\x08' => "\\b"
  | '\x0c' => "\\f"
  | '\n' => "\\n"
  | '\r' => "\\r"
  | '\t' => "\\t"
  | c =>
    if c.toNat < 0x20 ∨ c = '<' ∨ c = '>' ∨ c = '&' ∨ c = '\u2028' ∨ c = '\u2029' then
      "\\u" ++ hexDigits 4 c.toNat
    else String.utf8EncodeChar c

/-- A symbol of a text as it stands between the quotes. -/
def jsonSymbol : Symbol → Text
  | .char c => jsonChar c
  | .stray _ => "\\ufffd"

/-- A text between quotes. -/
def jsonText (s : Text) : Text := "\"" ++ (symbols s).flatMap jsonSymbol ++ "\""

mutual

/-- The written form of a document whose first line is indented by `indent`. -/
def jsonAt (indent : Nat) : Document → Text
  | .text s => jsonText s
  | .list [] => "[]"
  | .list items =>
    "[\n" ++ join ",\n" (jsonItems (indent + 2) items) ++ "\n" ++ spaces indent ++ "]"
  | .record [] => "\x7b\x7d"
  | .record entries =>
    "\x7b\n" ++ join ",\n" (jsonEntries (indent + 2) entries) ++ "\n" ++ spaces indent ++ "\x7d"

/-- The written forms of the items of a list. -/
def jsonItems (indent : Nat) : List Document → List Text
  | [] => []
  | item :: items => (spaces indent ++ jsonAt indent item) :: jsonItems indent items

/-- The written forms of the entries of a record. -/
def jsonEntries (indent : Nat) : List (Text × Document) → List Text
  | [] => []
  | (name, value) :: entries =>
    (spaces indent ++ jsonText name ++ ": " ++ jsonAt indent value) :: jsonEntries indent entries

end

/-- The written form of a document in JSON. -/
def json (d : Document) : Text := jsonAt 0 d ++ "\n"

end DtoSchema.Document
