import DtoSchema.Text.Basic

/-!
# Characters of a text

A text is read as a sequence of characters in UTF-8.  Bytes that are not part of a valid encoding
(overlong forms, surrogates and code points above the last plane included) are strays, one symbol
each, so that no byte is lost: the text is the concatenation of the encodings of its symbols.
-/

namespace DtoSchema

/-- A character of a text, or a byte that belongs to no character. -/
inductive Symbol where
  /-- A character in valid encoding. -/
  | char (c : Char)
  /-- A byte outside of every valid encoding. -/
  | stray (b : UInt8)
  deriving DecidableEq, Repr

namespace Symbol

/-- The bytes of a symbol. -/
def encode : Symbol → Text
  | char c => String.utf8EncodeChar c
  | stray b => [b]

/-- The symbol as a character, a stray byte being the replacement character. -/
def toChar : Symbol → Char
  | char c => c
  | stray _ => '�'

/-- The continuation bytes of an encoding. -/
def isTail (b : UInt8) : Bool := 0x80 ≤ b && b ≤ 0xbf

/-- The six bits that a continuation byte carries. -/
def tailBits (b : UInt8) : Nat := b.toNat % 64

/-- The range of the second byte of an encoding of three or four bytes that starts with `b`: it
leaves out overlong forms, surrogates and code points above the last one. -/
def isSecond (b c : UInt8) : Bool :=
  if b = 0xe0 then 0xa0 ≤ c && c ≤ 0xbf
  else if b = 0xed then 0x80 ≤ c && c ≤ 0x9f
  else if b = 0xf0 then 0x90 ≤ c && c ≤ 0xbf
  else if b = 0xf4 then 0x80 ≤ c && c ≤ 0x8f
  else isTail c

/-- The first symbol of the text `b :: s`, and the number of its bytes in `s`. -/
def first (b : UInt8) (s : Text) : Symbol × Nat :=
  if b < 0x80 then (char (Char.ofNat b.toNat), 0)
  else if 0xc2 ≤ b && b ≤ 0xdf then
    match s with
    | c :: _ =>
      if isTail c then (char (Char.ofNat (b.toNat % 32 * 64 + tailBits c)), 1) else (stray b, 0)
    | _ => (stray b, 0)
  else if 0xe0 ≤ b && b ≤ 0xef then
    match s with
    | c :: d :: _ =>
      if isSecond b c && isTail d then
        (char (Char.ofNat (b.toNat % 16 * 4096 + tailBits c * 64 + tailBits d)), 2)
      else (stray b, 0)
    | _ => (stray b, 0)
  else if 0xf0 ≤ b && b ≤ 0xf4 then
    match s with
    | c :: d :: e :: _ =>
      if isSecond b c && isTail d && isTail e then
        (char (Char.ofNat
          (b.toNat % 8 * 262144 + tailBits c * 4096 + tailBits d * 64 + tailBits e)), 3)
      else (stray b, 0)
    | _ => (stray b, 0)
  else (stray b, 0)

end Symbol

namespace Text

/-- `symbols` from inside a text: the number counts the bytes of the last symbol that are still to
be passed. -/
def symbolsFrom : Nat → Text → List Symbol
  | _, [] => []
  | k + 1, _ :: s => symbolsFrom k s
  | 0, b :: s => let (symbol, width) := Symbol.first b s; symbol :: symbolsFrom width s

/-- The symbols of a text. -/
def symbols (s : Text) : List Symbol := symbolsFrom 0 s

/-- The characters of a text, with the replacement character for every stray byte. -/
def chars (s : Text) : List Char := (symbols s).map Symbol.toChar

/-- The text of a list of characters. -/
def ofChars (cs : List Char) : Text := cs.flatMap String.utf8EncodeChar

/-- The text holds no stray byte. -/
def isValid (s : Text) : Bool :=
  (symbols s).all fun
    | .char _ => true
    | .stray _ => false

end Text

end DtoSchema
