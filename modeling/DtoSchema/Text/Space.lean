import DtoSchema.Text.Basic

/-!
# White space

The white space of a text is that of the Unicode property `White_Space`, found by the UTF-8
encodings of its characters.  An encoding starts with a byte that occurs inside no other encoding,
so looking for these byte strings finds exactly the characters, also in a text that is not valid
UTF-8.
-/

namespace DtoSchema.Text

/-- The characters of the property `White_Space`. -/
def spaceChars : List Char :=
  ['\t', '\n', '\x0b', '\x0c', '\r', ' ', '\u0085', '\u00a0', '\u1680', '\u2000', '\u2001',
    '\u2002', '\u2003', '\u2004', '\u2005', '\u2006', '\u2007', '\u2008', '\u2009', '\u200a',
    '\u2028', '\u2029', '\u202f', '\u205f', '\u3000']

/-- The encodings of the white space characters. -/
def spaces : List Text := spaceChars.map String.utf8EncodeChar

/-- The width of the member of `encodings` that the text starts with, and zero if it starts with
none. -/
def leadingWidth (encodings : List Text) (s : Text) : Nat :=
  match encodings.find? (·.isPrefixOf s) with
  | some e => e.length
  | none => 0

/-- `dropLeading` from inside a text: the number counts the bytes that are still to be dropped. -/
def dropLeadingFrom (encodings : List Text) : Nat → Text → Text
  | _, [] => []
  | k + 1, _ :: s => dropLeadingFrom encodings k s
  | 0, b :: s =>
    match leadingWidth encodings (b :: s) with
    | 0 => b :: s
    | w + 1 => dropLeadingFrom encodings w s

/-- The text without its leading members of `encodings`. -/
def dropLeading (encodings : List Text) (s : Text) : Text := dropLeadingFrom encodings 0 s

/-- The text without leading white space. -/
def trimStart (s : Text) : Text := dropLeading spaces s

/-- The text without trailing white space. -/
def trimEnd (s : Text) : Text := (dropLeading (spaces.map List.reverse) s.reverse).reverse

/-- The text without leading and trailing white space. -/
def trim (s : Text) : Text := trimEnd (trimStart s)

/-- The pieces between single white space characters, empty ones included; the number counts the
bytes of the last such character that are still to be passed. -/
def spacePieces : Nat → Text → List Text
  | _, [] => [[]]
  | k + 1, _ :: s => spacePieces k s
  | 0, b :: s =>
    match leadingWidth spaces (b :: s) with
    | 0 => match spacePieces 0 s with
      | p :: ps => (b :: p) :: ps
      | [] => [[b]]
    | w + 1 => [] :: spacePieces w s

/-- The maximal non-empty pieces of a text that hold no white space. -/
def fields (s : Text) : List Text := (spacePieces 0 s).filter (!·.isEmpty)

/-- The text trimmed, with every run of white space written as one space. -/
def collapse (s : Text) : Text := join " " (fields s)

end DtoSchema.Text
