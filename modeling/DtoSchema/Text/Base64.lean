import DtoSchema.Text.Basic

/-!
# Bytes in base 64

Three bytes are written as four digits of six bits each; a last group that is not full is filled up
with equality signs.
-/

namespace DtoSchema.Text

/-- The digit for six bits. -/
def base64Digit (n : Nat) : UInt8 :=
  if n < 26 then UInt8.ofNat (n + 'A'.toNat)
  else if n < 52 then UInt8.ofNat (n - 26 + 'a'.toNat)
  else if n < 62 then UInt8.ofNat (n - 52 + '0'.toNat)
  else if n = 62 then ascii '+'
  else ascii '/'

/-- The six bits of a digit. -/
def base64Value? (b : UInt8) : Option Nat :=
  if isCapital b then some (b.toNat - 'A'.toNat)
  else if isLetter b then some (b.toNat - 'a'.toNat + 26)
  else if isDigit b then some (b.toNat - '0'.toNat + 52)
  else if b = ascii '+' then some 62
  else if b = ascii '/' then some 63
  else none

/-- Bytes written in base 64. -/
def toBase64 : Text → Text
  | a :: b :: c :: s =>
    let n := a.toNat * 65536 + b.toNat * 256 + c.toNat
    base64Digit (n / 262144) :: base64Digit (n / 4096 % 64) :: base64Digit (n / 64 % 64) ::
      base64Digit (n % 64) :: toBase64 s
  | [a, b] =>
    let n := a.toNat * 256 + b.toNat
    [base64Digit (n / 1024), base64Digit (n / 16 % 64), base64Digit (n % 16 * 4), ascii '=']
  | [a] => [base64Digit (a.toNat / 4), base64Digit (a.toNat % 4 * 16), ascii '=', ascii '=']
  | [] => []

/-- The bytes that groups of four digits stand for. -/
def base64Groups? : Text → Option Text
  | [] => some []
  | a :: b :: c :: d :: s =>
    (base64Value? a).bind fun a => (base64Value? b).bind fun b =>
      let first := UInt8.ofNat (a * 4 + b / 16)
      if c = ascii '=' then
        if d = ascii '=' ∧ s.isEmpty then some [first] else none
      else (base64Value? c).bind fun c =>
        let second := UInt8.ofNat (b % 16 * 16 + c / 4)
        if d = ascii '=' then if s.isEmpty then some [first, second] else none
        else (base64Value? d).bind fun d =>
          (base64Groups? s).map fun rest =>
            first :: second :: UInt8.ofNat (c % 4 * 64 + d) :: rest
  | _ => none

/-- The bytes that a text in base 64 stands for.  Line breaks do not count. -/
def ofBase64? (s : Text) : Option Text :=
  base64Groups? (s.filter fun b => b != ascii '\n' && b != ascii '\r')

end DtoSchema.Text
