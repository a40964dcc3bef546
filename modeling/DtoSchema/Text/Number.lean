import DtoSchema.Binary64
import DtoSchema.Text.Integer

/-!
# Numbers in several notations

Integers may be written in base two, eight, ten or sixteen, and numbers with a fraction in decimal.
Digits may be separated by underscores, one between two digits.
-/

namespace DtoSchema.Text

/-- A letter as a small one. -/
def lowerByte (b : UInt8) : UInt8 := if isCapital b then b + 32 else b

/-! ### Digits -/

/-- The value of a digit or letter as a digit of a base up to thirty-six. -/
def anyDigit? (b : UInt8) : Option Nat :=
  if isDigit b then some (digitValue b)
  else if isLetter b then some ((lowerByte b).toNat - 'a'.toNat + 10)
  else none

/-- The value of a digit of the given base. -/
def digitIn? (base : Nat) (b : UInt8) : Option Nat := (anyDigit? b).filter (· < base)

/-- Why a text is no number. -/
inductive NumberError where
  /-- It is not written like one. -/
  | syntaxError
  /-- It lies outside of the range. -/
  | outOfRange
  deriving DecidableEq, Repr

/-- The value of digits that follow digits of the value `n`.  The number has to stay below `limit`,
and it is known to be too great once a digit has passed it, whatever comes after. -/
def digitsBelow (limit base n : Nat) : Text → Except NumberError Nat
  | [] => .ok n
  | b :: s =>
    if b = ascii '_' then digitsBelow limit base n s
    else match digitIn? base b with
      | none => .error .syntaxError
      | some d =>
        if base * n + d < limit then digitsBelow limit base (base * n + d) s
        else .error .outOfRange

/-- The base that a prefix announces, and what follows the prefix.  A leading zero alone stands for
base eight. -/
def announcedBase : Text → Nat × Text
  | 0x30 :: c :: d :: s =>
    if lowerByte c = ascii 'b' then (2, d :: s)
    else if lowerByte c = ascii 'o' then (8, d :: s)
    else if lowerByte c = ascii 'x' then (16, d :: s)
    else (8, c :: d :: s)
  | 0x30 :: s => (8, s)
  | s => (10, s)

/-- The text without a leading sign. -/
def withoutSign : Text → Text
  | b :: s => if b = ascii '-' ∨ b = ascii '+' then s else b :: s
  | [] => []

/-- The text begins with a minus sign. -/
def isNegative (s : Text) : Bool := s.head? == some (ascii '-')

/-- Every underscore of `s` stands between two digits; `afterDigit` says that a digit precedes
`s`. -/
def separatesDigits (hex afterDigit : Bool) : Text → Bool
  | [] => true
  | b :: s =>
    if isDigit b || (hex && (digitIn? 16 b).isSome) then separatesDigits hex true s
    else if b = ascii '_' then
      afterDigit && s.head?.any (fun c => isDigit c || (hex && (digitIn? 16 c).isSome)) &&
        separatesDigits hex false s
    else separatesDigits hex false s

/-- Every underscore of a number stands between two digits, or between a prefix and a digit. -/
def underscoresFit (s : Text) : Bool :=
  match withoutSign s with
  | 0x30 :: c :: s =>
    if lowerByte c = ascii 'b' ∨ lowerByte c = ascii 'o' ∨ lowerByte c = ascii 'x' then
      separatesDigits (lowerByte c == ascii 'x') true s
    else separatesDigits false true (c :: s)
  | s => separatesDigits false false s

/-- The number below `2 ^ 64` that is written in the base that its prefix announces. -/
def anyBaseNatural (s : Text) : Except NumberError Nat :=
  if s.isEmpty then .error .syntaxError
  else
    let (base, digits) := announcedBase s
    match digitsBelow word64Bound base 0 digits with
    | .ok n => if s.contains (ascii '_') && !underscoresFit s then .error .syntaxError else .ok n
    | .error e => .error e

/-- The signed 64-bit integer with the sign and the digits of the text `s`, where the digits are
read by `read`. -/
def signedBy (read : Text → Except NumberError Nat) (s : Text) : Except NumberError Int :=
  match read (withoutSign s) with
  | .error e => .error e
  | .ok n =>
    let value : Int := if isNegative s then -n else n
    if fitsInt64 value then .ok value else .error .outOfRange

/-- The signed 64-bit integer that is written in the base that its prefix announces. -/
def anyBaseInteger (s : Text) : Except NumberError Int := signedBy anyBaseNatural s

/-- The number below `2 ^ 64` that is written with digits of the given base. -/
def naturalIn (base : Nat) (s : Text) : Except NumberError Nat :=
  if s.isEmpty || s.contains (ascii '_') then .error .syntaxError
  else digitsBelow word64Bound base 0 s

/-! ### Numbers with a fraction -/

/-- A decimal number `± digits * 10 ^ exponent`. -/
structure Decimal where
  /-- The number is negative, or the zero with the minus sign. -/
  negative : Bool
  /-- The digits as a whole number. -/
  digits : Nat
  /-- The power of ten. -/
  exponent : Int
  deriving DecidableEq, Repr

/-- The exponent of a decimal number, after its mark. -/
def exponent? (s : Text) : Option Int :=
  let digits := withoutSign s
  if digits.head?.any isDigit && digits.all (fun b => isDigit b || b == ascii '_') then
    let n := digitsValue (digits.filter isDigit)
    some (if isNegative s then -n else n)
  else none

/-- The decimal number written by a text: digits with at most one point among them, and possibly an
exponent. -/
def decimal? (s : Text) : Option Decimal :=
  let body := withoutSign s
  let mark := fun b => b == ascii 'e' || b == ascii 'E'
  let significand := body.takeWhile fun b => !mark b
  let tail := body.drop significand.length
  let whole := significand.takeWhile (· != ascii '.')
  let fraction := significand.drop (whole.length + 1)
  let digits := (whole ++ fraction).filter isDigit
  let plain := (whole ++ fraction).all fun b => isDigit b || b == ascii '_'
  let shift := (fraction.filter isDigit).length
  if digits.isEmpty || !plain || (s.contains (ascii '_') && !underscoresFit s) then none
  else
    match tail with
    | [] => some ⟨isNegative s, digitsValue digits, -shift⟩
    | _ :: power =>
      (exponent? power).map fun e => ⟨isNegative s, digitsValue digits, e - shift⟩

/-- The magnitude of a decimal number in binary floating point, if it is within the range.  Powers
of ten that put it beyond every number of the format, or below all of them, are not computed. -/
def Decimal.magnitude? (d : Decimal) : Option Binary64 :=
  let places := (Nat.toDigits 10 d.digits).length
  if d.digits = 0 ∨ d.exponent + places < -400 then some ⟨0⟩
  else if 400 < d.exponent + places then none
  else
    let x := match d.exponent with
      | .ofNat e => Binary64.nearest (d.digits * Nat.pow 10 e) 1
      | .negSucc e => Binary64.nearest d.digits (Nat.pow 10 (e + 1))
    if x.inRange then some x else none

end DtoSchema.Text
