/-!
# Texts as lists of bytes

Everything this library reads is a byte text: offsets count bytes, a cut may fall inside a
character, and a source need not be valid UTF-8.  A `Text` is therefore the list of its bytes,
and literals in the code are written as strings and stand for their UTF-8 encoding.

The module also holds the byte classes that the source languages are written in, and the searches
that the scanners share.  A search that skips what it has just recognised counts the bytes still
to be skipped, so that every function here recurses on the text itself.
-/

namespace DtoSchema

/-- A text is the list of its bytes. -/
abbrev Text := List UInt8

/-- The byte of an ASCII character. -/
abbrev ascii (c : Char) : UInt8 := c.toUInt8

/-- The UTF-8 bytes of a string. -/
def utf8 (s : String) : Text := s.toList.flatMap String.utf8EncodeChar

/-- A string literal stands for its bytes wherever a text is expected. -/
instance : Coe String Text := ⟨utf8⟩

/-- Texts are compared byte by byte, so being compared as the same is being equal. -/
instance Text.lawfulBEq : LawfulBEq Text := inferInstance

namespace Text

/-! ### Classes of bytes -/

/-- The decimal digits. -/
def isDigit (b : UInt8) : Bool := ascii '0' ≤ b && b ≤ ascii '9'

/-- The capital ASCII letters. -/
def isCapital (b : UInt8) : Bool := ascii 'A' ≤ b && b ≤ ascii 'Z'

/-- The ASCII letters. -/
def isLetter (b : UInt8) : Bool := (ascii 'a' ≤ b && b ≤ ascii 'z') || isCapital b

/-- A word byte: letter, digit or underscore. -/
def isWord (b : UInt8) : Bool := isLetter b || isDigit b || b == ascii '_'

/-- The bytes that can start an identifier. -/
def isIdentStart (b : UInt8) : Bool := b == ascii '_' || b == ascii '$' || isLetter b

/-- The bytes that can continue an identifier. -/
def isIdentPart (b : UInt8) : Bool := isIdentStart b || isDigit b

/-- The bytes that separate tokens of a source: space, tab, line feed, carriage return and form
feed. -/
def isGap (b : UInt8) : Bool :=
  b == ascii ' ' || b == ascii '\t' || b == ascii '\n' || b == ascii '\r' || b == 0x0c

/-- A word boundary before the text `s` whose preceding byte is `prev`: exactly one of the two
neighbouring bytes is a word byte, a missing neighbour counting as none. -/
def atBoundary (prev : Option UInt8) (s : Text) : Bool :=
  prev.any isWord != s.head?.any isWord

/-! ### Prefixes and searches -/

/-- What follows the prefix `p` of `s`, if `s` starts with it. -/
def afterPrefix? : (p s : Text) → Option Text
  | [], s => some s
  | _ :: _, [] => none
  | a :: p, b :: s => if a = b then afterPrefix? p s else none

/-- The text starts with `p`. -/
def startsWith (s p : Text) : Bool := p.isPrefixOf s

/-- The text ends with `p`. -/
def endsWith (s p : Text) : Bool := p.isSuffixOf s

/-- The offset of the first occurrence of `needle`. -/
def indexOf? (needle : Text) : Text → Option Nat
  | [] => if needle.isEmpty then some 0 else none
  | b :: s => if needle.isPrefixOf (b :: s) then some 0 else (indexOf? needle s).map (· + 1)

/-- The text contains `needle`. -/
def hasInfix (needle s : Text) : Bool := (indexOf? needle s).isSome

/-- The offset of the first byte equal to `c`. -/
def indexOfByte? (c : UInt8) (s : Text) : Option Nat := s.findIdx? (· == c)

/-- The text before and after the first byte equal to `c`. -/
def cut? (c : UInt8) : Text → Option (Text × Text)
  | [] => none
  | b :: s => if b = c then some ([], s) else (cut? c s).map fun (l, r) => (b :: l, r)

/-- The text before and after the last byte equal to `c`. -/
def cutLast? (c : UInt8) (s : Text) : Option (Text × Text) :=
  (cut? c s.reverse).map fun (l, r) => (r.reverse, l.reverse)

/-- The pieces between the bytes equal to `c`; there is always at least one. -/
def pieces (c : UInt8) : Text → List Text
  | [] => [[]]
  | b :: s =>
    if b = c then [] :: pieces c s
    else match pieces c s with
      | p :: ps => (b :: p) :: ps
      | [] => [[b]]

/-- The text if a condition holds, and the empty text otherwise. -/
def onlyIf (c : Bool) (s : Text) : Text := if c then s else []

/-- The texts joined with a separator between neighbours. -/
def join (sep : Text) (parts : List Text) : Text := List.intercalate sep parts

/-- `replaceAll` from inside a text: the number counts the bytes of the last occurrence that are
still to be skipped. -/
def replaceFrom (old new : Text) : Nat → Text → Text
  | _, [] => []
  | k + 1, _ :: s => replaceFrom old new k s
  | 0, b :: s =>
    if old.isPrefixOf (b :: s) then new ++ replaceFrom old new (old.length - 1) s
    else b :: replaceFrom old new 0 s

/-- Every occurrence of the non-empty text `old`, taken from left to right without overlap, written
as `new`. -/
def replaceAll (old new s : Text) : Text := replaceFrom old new 0 s

/-- Every byte replaced by the text that `f` gives for it. -/
def replaceBytes (f : UInt8 → Text) (s : Text) : Text := s.flatMap f

/-- The text without its trailing bytes of class `p`. -/
def dropWhileEnd (p : UInt8 → Bool) (s : Text) : Text := (s.reverse.dropWhile p).reverse

/-- The order of texts by their bytes; a proper prefix comes first. -/
def compare : Text → Text → Ordering
  | [], [] => .eq
  | [], _ :: _ => .lt
  | _ :: _, [] => .gt
  | a :: s, b :: t => (Ord.compare a b).then (compare s t)

/-! ### Occurrences of a pattern

A pattern is recognised at a place of a text, given the byte before the place; it answers with a
value and the number of bytes that it covers. -/

/-- A place where a pattern was recognised. -/
structure Occurrence (α : Type) where
  /-- The text before the place, nearest byte first. -/
  before : Text
  /-- What was recognised. -/
  value : α
  /-- The number of bytes covered. -/
  width : Nat
  /-- The text from the place on. -/
  rest : Text

/-- The text that follows an occurrence. -/
def Occurrence.after {α : Type} (o : Occurrence α) : Text := o.rest.drop o.width

/-- The offset of an occurrence. -/
def Occurrence.offset {α : Type} (o : Occurrence α) : Nat := o.before.length

/-- `occurrences` from inside a text: `before` is the text passed, nearest byte first, and the
number counts the bytes of the last occurrence that are still to be passed. -/
def occurrencesFrom {α : Type} (pattern : Option UInt8 → Text → Option (α × Nat)) (before : Text) :
    Nat → Text → List (Occurrence α)
  | _, [] => []
  | k + 1, b :: s => occurrencesFrom pattern (b :: before) k s
  | 0, b :: s =>
    match pattern before.head? (b :: s) with
    | some (value, width) =>
      ⟨before, value, width, b :: s⟩ :: occurrencesFrom pattern (b :: before) (width - 1) s
    | none => occurrencesFrom pattern (b :: before) 0 s

/-- The occurrences of a pattern from left to right, without overlap. -/
def occurrences {α : Type} (pattern : Option UInt8 → Text → Option (α × Nat)) (s : Text) :
    List (Occurrence α) :=
  occurrencesFrom pattern [] 0 s

end Text

end DtoSchema
