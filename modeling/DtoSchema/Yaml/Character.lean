import DtoSchema.Text.Symbol

/-!
# Characters of a YAML stream

A stream is read as UTF-8, or as UTF-16 if it starts with the byte order mark of one of its forms.
Control characters have no place in it.

A stream is fetched in portions of a fixed number of bytes, and only as far as it is looked at: a
malformed portion that is never asked for does no harm.  A character that is cut by the end of a
portion belongs to the next one.
-/

namespace DtoSchema.Yaml

open Text

/-! ### Classes of characters -/

/-- The line breaks. -/
def isBreak (c : Char) : Bool :=
  c == '\r' || c == '\n' || c == '\u0085' || c == '\u2028' || c == '\u2029'

/-- The characters that separate words. -/
def isBlank (c : Char) : Bool := c == ' ' || c == '\t'

/-- The characters of names and numbers. -/
def isNameChar (c : Char) : Bool := c.isAlphanum || c == '_' || c == '-'

/-- The characters that may stand in a stream. -/
def isAllowed (c : Char) : Bool :=
  c == '\t' || c == '\n' || c == '\r' || (' ' ≤ c && c ≤ '~') || c == '\u0085' ||
    ('\u00a0' ≤ c && c ≤ '\ufffd') || '\x7f' < c && '\uffff' < c

/-- The mark of the order of bytes. -/
def orderMark : Char := '\ufeff'

/-! ### Encodings -/

/-- How characters are encoded. -/
inductive Encoding where
  /-- In one to four bytes. -/
  | utf8
  /-- In one or two units of two bytes, the less significant one first or last. -/
  | utf16 (lessFirst : Bool)

/-- What stands at the start of a text. -/
inductive Head where
  /-- A character, and the number of its bytes. -/
  | char (c : Char) (width : Nat)
  /-- A part of what may become a character. -/
  | unfinished
  /-- What is no character, or none of a stream. -/
  | malformed

/-- The number of bytes of a character in UTF-8 whose first byte is `b`, if it can be one. -/
def octetCount? (b : UInt8) : Option Nat :=
  if b < 0x80 then some 1
  else if b < 0xc0 then none
  else if b < 0xe0 then some 2
  else if b < 0xf0 then some 3
  else if b < 0xf8 then some 4
  else none

/-- A character of some bytes, if it may stand in a stream. -/
def Head.ofChar (c : Char) (width : Nat) : Head :=
  if isAllowed c then .char c width else .malformed

/-- What stands at the start of a text in UTF-8, which is not empty. -/
def Head.ofUtf8 (b : UInt8) (s : Text) : Head :=
  match octetCount? b with
  | none => .malformed
  | some width =>
    if s.length + 1 < width then .unfinished
    else match Symbol.first b s with
      | (.char c, _) => .ofChar c width
      | (.stray _, _) => .malformed

/-- What stands at the start of a text in UTF-16, where `unit` puts two bytes together. -/
def Head.ofUtf16 (unit : UInt8 → UInt8 → Nat) : Text → Head
  | a :: b :: s =>
    let u := unit a b
    if 0xdc00 ≤ u ∧ u < 0xe000 then .malformed
    else if 0xd800 ≤ u ∧ u < 0xdc00 then
      match s with
      | a :: b :: _ =>
        let v := unit a b
        if 0xdc00 ≤ v ∧ v < 0xe000 then
          .ofChar (Char.ofNat (0x10000 + (u - 0xd800) * 1024 + (v - 0xdc00))) 4
        else .malformed
      | _ => .unfinished
    else .ofChar (Char.ofNat u) 2
  | _ => .unfinished

/-- What stands at the start of a text. -/
def Encoding.head (e : Encoding) (s : Text) : Head :=
  match e, s with
  | _, [] => .unfinished
  | utf8, b :: s => .ofUtf8 b s
  | utf16 true, s => .ofUtf16 (fun a b => a.toNat + 256 * b.toNat) s
  | utf16 false, s => .ofUtf16 (fun a b => 256 * a.toNat + b.toNat) s

/-- The encoding of a stream, and the number of bytes of the mark that shows it. -/
def encodingOf : Text → Encoding × Nat
  | 0xff :: 0xfe :: _ => (.utf16 true, 2)
  | 0xfe :: 0xff :: _ => (.utf16 false, 2)
  | 0xef :: 0xbb :: 0xbf :: _ => (.utf8, 3)
  | _ => (.utf8, 0)

/-! ### Portions -/

/-- What is fetched of a stream at a time. -/
structure Portion where
  /-- The number of its characters. -/
  size : Nat
  /-- It is not malformed behind them. -/
  sound : Bool

/-- The characters at the start of a text, the number of their bytes, and whether what follows is
not malformed. -/
def charactersOf (e : Encoding) : (fuel : Nat) → Text → List Char × Nat × Bool
  | 0, _ => ([], 0, true)
  | fuel + 1, s =>
    match e.head s with
    | .char c width =>
      let (cs, used, sound) := charactersOf e fuel (s.drop width)
      (c :: cs, width + used, sound)
    | .unfinished => ([], 0, true)
    | .malformed => ([], 0, false)

/-- The number of bytes that are fetched at a time. -/
def portionBytes : Nat := 512

/-- The characters of a stream up to what is malformed, and its portions, where `width` is the
number of bytes of the first one. -/
def portionsOf (e : Encoding) : (fuel width : Nat) → Text → List Char × List Portion
  | 0, _, _ => ([], [])
  | fuel + 1, width, s =>
    if s.isEmpty then ([], [])
    else
      let (cs, used, sound) := charactersOf e width (s.take width)
      if sound && 0 < used then
        let (more, portions) := portionsOf e fuel portionBytes (s.drop used)
        (cs ++ more, ⟨cs.length, true⟩ :: portions)
      else (cs, [⟨cs.length, false⟩])

/-- The characters of a stream up to what is malformed, and its portions. -/
def portions (s : Text) : List Char × List Portion :=
  let (e, n) := encodingOf s
  portionsOf e (s.length + 1) (portionBytes - n) (s.drop n)

end DtoSchema.Yaml
