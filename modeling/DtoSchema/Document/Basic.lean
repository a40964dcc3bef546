import DtoSchema.Text.Basic

/-!
# Structured documents

A document is a text, a list of documents, or a record of named documents in a fixed order.  It has
one written form for each of the formats that are written.
-/

namespace DtoSchema

/-- A document. -/
inductive Document where
  /-- A text. -/
  | text (s : Text)
  /-- A list of documents. -/
  | list (items : List Document)
  /-- Named documents in order. -/
  | record (entries : List (Text × Document))

namespace Document

/-- The entry of a name, which is left out if its text is empty. -/
def unlessEmpty (name s : Text) : List (Text × Document) :=
  if s.isEmpty then [] else [(name, text s)]

/-- A list or a record that is not empty, so that it is written on lines of its own. -/
def isBlock : Document → Bool
  | text _ => false
  | list items => !items.isEmpty
  | record entries => !entries.isEmpty

/-- As many spaces. -/
def spaces (n : Nat) : Text := List.replicate n (ascii ' ')

end Document

end DtoSchema
