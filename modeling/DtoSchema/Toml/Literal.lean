import DtoSchema.Text.Date
import DtoSchema.Text.Number
import DtoSchema.Text.Symbol

/-!
# Literals of TOML

Texts stand between quotes of several kinds; numbers, dates and times stand bare.  Each function
reads a literal at the start of a text and gives what follows it.
-/

namespace DtoSchema.Toml

open Text

/-- The blanks. -/
def isBlank (b : UInt8) : Bool := b == ascii ' ' || b == ascii '\t'

/-- The bytes of line breaks. -/
def isBreak (b : UInt8) : Bool := b == ascii '\n' || b == ascii '\r'

/-- The text without the blanks at its start. -/
def skipBlanks (s : Text) : Text := s.dropWhile isBlank

/-- The control characters, without tabs and line breaks. -/
def isControl (b : UInt8) : Bool := (b < 0x20 && !isBlank b && !isBreak b) || b == 0x7f

/-- Every carriage return is followed by a line feed. -/
def returnsPaired : Text → Bool
  | [] => true
  | b :: s => (b != ascii '\r' || s.head? == some (ascii '\n')) && returnsPaired s

/-- The text may be read: it is valid, and without control characters and the replacement
character. -/
def isReadable (s : Text) : Bool :=
  isValid s && !(chars s).contains '\ufffd' && !s.any isControl && returnsPaired s

/-- The text without a byte order mark at its start. -/
def withoutMark : Text → Text
  | 0xff :: 0xfe :: s => s
  | 0xfe :: 0xff :: s => s
  | 0xef :: 0xbb :: 0xbf :: s => s
  | s => s

/-! ### Texts -/

/-- The text of a character given by hexadecimal digits. -/
def codePoint? (digits : Text) : Option Text :=
  match naturalIn 16 digits with
  | .ok n => if n.isValidChar then some (ofChars [Char.ofNat n]) else none
  | .error _ => none

/-- What an escape stands for, whose letter starts the text, and the number of its bytes. -/
def escape? : Text → Option (Text × Nat)
  | [] => none
  | b :: s =>
    if b = ascii 'u' then
      (codePoint? (s.take 4)).bind fun c => if s.length < 4 then none else some (c, 5)
    else if b = ascii 'U' then
      (codePoint? (s.take 8)).bind fun c => if s.length < 8 then none else some (c, 9)
    else
      let simple : List (UInt8 × UInt8) :=
        [(ascii 'b', 0x08), (ascii 't', 0x09), (ascii 'n', 0x0a), (ascii 'f', 0x0c),
          (ascii 'r', 0x0d), (ascii '"', ascii '"'), (ascii '\\', ascii '\\')]
      (simple.lookup b).map fun c => ([c], 1)

/-- The rest of a text between double quotes on one line. -/
def basicText? : (fuel : Nat) → Text → Option (Text × Text)
  | 0, _ => none
  | fuel + 1, s =>
    match s with
    | [] => none
    | b :: s =>
      if isBreak b then none
      else if b = ascii '"' then some ([], s)
      else if b = ascii '\\' then
        (escape? s).bind fun (c, n) =>
          (basicText? fuel (s.drop n)).map fun (more, rest) => (c ++ more, rest)
      else (basicText? fuel s).map fun (more, rest) => (b :: more, rest)

/-- The rest of a text between single quotes on one line. -/
def literalText? : Text → Option (Text × Text)
  | [] => none
  | b :: s =>
    if isBreak b then none
    else if b = ascii '\'' then some ([], s)
    else (literalText? s).map fun (more, rest) => (b :: more, rest)

/-- The text without a line break at its start. -/
def skipFirstBreak : Text → Text
  | 0x0a :: s => s
  | 0x0d :: 0x0a :: s => s
  | s => s

/-- The white space behind a backslash that ends a line. -/
def lineEnding? (s : Text) : Option Nat :=
  let space := s.takeWhile fun b => isBlank b || isBreak b
  if space.contains (ascii '\n') then some space.length else none

/-- What a run of quotes means in a text between three of them: fewer than three belong to the text,
and of three to `most` the last three end it. -/
def closing? (most run : Nat) : Option (Option Nat) :=
  if run < 3 then some none else if run ≤ most then some (some (run - 3)) else none

/-- The rest of a text between three double quotes.  `escaped` says that an escaped backslash has
just been passed, behind which the end may hold one more quote. -/
def basicLines? : (fuel : Nat) → (escaped : Bool) → Text → Option (Text × Text)
  | 0, _, _ => none
  | fuel + 1, escaped, s =>
    match s with
    | [] => none
    | b :: tail =>
      if b = ascii '"' then
        let run := (s.takeWhile (· == ascii '"')).length
        (closing? (if escaped then 6 else 5) run).bind fun
          | some n => some (List.replicate n (ascii '"'), s.drop run)
          | none =>
            (basicLines? fuel false (s.drop run)).map fun (more, rest) =>
              (List.replicate run (ascii '"') ++ more, rest)
      else if b = ascii '\\' then
        match lineEnding? tail with
        | some n => basicLines? fuel false (tail.drop n)
        | none =>
          (escape? tail).bind fun (c, n) =>
            (basicLines? fuel (tail.head? == some (ascii '\\')) (tail.drop n)).map
              fun (more, rest) => (c ++ more, rest)
      else (basicLines? fuel false tail).map fun (more, rest) => (b :: more, rest)

/-- The rest of a text between three single quotes. -/
def literalLines? : (fuel : Nat) → Text → Option (Text × Text)
  | 0, _ => none
  | fuel + 1, s =>
    match s with
    | [] => none
    | b :: tail =>
      if b = ascii '\'' then
        let run := (s.takeWhile (· == ascii '\'')).length
        (closing? 5 run).bind fun
          | some n => some (List.replicate n (ascii '\''), s.drop run)
          | none =>
            (literalLines? fuel (s.drop run)).map fun (more, rest) =>
              (List.replicate run (ascii '\'') ++ more, rest)
      else (literalLines? fuel tail).map fun (more, rest) => (b :: more, rest)

/-- The text between quotes on one line here. -/
def lineText? : Text → Option (Text × Text)
  | [] => none
  | b :: s =>
    if b = ascii '"' then basicText? (s.length + 1) s
    else if b = ascii '\'' then literalText? s
    else none

/-- The text between quotes here. -/
def text? (s : Text) : Option (Text × Text) :=
  match afterPrefix? "\"\"\"" s, afterPrefix? "'''" s with
  | some body, _ => basicLines? (s.length + 1) false (skipFirstBreak body)
  | none, some body => literalLines? (s.length + 1) (skipFirstBreak body)
  | none, none => lineText? s

/-! ### Numbers -/

/-- Every underscore stands between two digits, and the last byte is a digit.  A digit is any that
can be one in some base. -/
def digitsJoined : (afterDigit : Bool) → Text → Bool
  | afterDigit, [] => afterDigit
  | afterDigit, b :: s => (b != ascii '_' || afterDigit) && digitsJoined (digitIn? 16 b).isSome s

/-- The number starts with a zero that does not belong there. -/
def hasExtraZero (s : Text) : Bool :=
  match s with
  | 0x30 :: b :: _ => !(b == ascii 'b' || b == ascii 'o' || b == ascii 'x')
  | a :: 0x30 :: _ :: _ => a == ascii '-' || a == ascii '+'
  | _ => false

/-- The integer that a literal stands for. -/
def integer? (s : Text) : Option Int :=
  if digitsJoined false s && !hasExtraZero s then (anyBaseInteger s).toOption else none

/-- Every point is followed by a digit. -/
def pointsFilled : Text → Bool
  | [] => true
  | b :: s => (b != ascii '.' || s.head?.any isDigit) && pointsFilled s

/-- The point and the marks of an exponent. -/
def isFloatMark (b : UInt8) : Bool := b == ascii '.' || b == ascii 'e' || b == ascii 'E'

/-- The parts of a number between points and marks of exponents, empty ones left out. -/
def floatParts (s : Text) : List Text :=
  (s.splitBy fun a b => !isFloatMark a && !isFloatMark b).filter fun p => !p.any isFloatMark

/-- The literal is a number with a fraction or an exponent, within the range of 64 bits. -/
def isFloat (s : Text) : Bool :=
  (floatParts s).all (digitsJoined false) && !((floatParts s).head?.any hasExtraZero) &&
    pointsFilled s && ((decimal? (s.filter (· != ascii '_'))).bind Decimal.magnitude?).isSome

/-! ### Dates and times -/

/-- A number of two digits up to `last`, and what follows. -/
def twoDigits? (last : Nat) : Text → Option (Nat × Text)
  | a :: b :: s =>
    let n := digitsValue [a, b]
    if isDigit a && isDigit b && n ≤ last then some (n, s) else none
  | _ => none

/-- What follows a date at the start of a text. -/
def afterDate? (s : Text) : Option Text :=
  if (s.take 4).length = 4 && (s.take 4).all isDigit then
    let year := digitsValue (s.take 4)
    (afterPrefix? "-" (s.drop 4)).bind fun s => (twoDigits? 12 s).bind fun (month, s) =>
      (afterPrefix? "-" s).bind fun s => (twoDigits? 31 s).bind fun (day, s) =>
        if 1 ≤ month ∧ 1 ≤ day ∧ day ≤ daysIn year month then some s else none
  else none

/-- What follows a time at the start of a text. -/
def afterTime? (s : Text) : Option Text :=
  (shortUpTo? 23 s).bind fun (_, s) => (afterPrefix? ":" s).bind fun s =>
    (twoDigits? 59 s).bind fun (_, s) => (afterPrefix? ":" s).bind fun s =>
      (twoDigits? 59 s).map fun (_, s) => skipFraction s

/-- A byte of a date or time, with its letters as capitals and a space as the letter between the
two. -/
def datetimeByte (b : UInt8) : UInt8 :=
  if b = ascii 'z' then ascii 'Z' else if b = ascii 't' ∨ b = ascii ' ' then ascii 'T' else b

/-- The literal is a date, a time, or both with or without a time zone. -/
def isDatetime (s : Text) : Bool :=
  let s := s.map datetimeByte
  (afterTime? s).any (·.isEmpty) ||
    match afterDate? s with
    | none => false
    | some [] => true
    | some (b :: s) =>
      b == ascii 'T' && (afterTime? s).any fun rest => rest.isEmpty || isZone rest

end DtoSchema.Toml
