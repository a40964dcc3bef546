import DtoSchema.Text.Basic

/-!
# Integers in decimal

Integers are read from and written as decimal texts.  What is read has to fit into 64 bits with
sign; a number outside of that range is no number.
-/

namespace DtoSchema.Text

/-- The least number that is beyond the signed 64-bit integers, `2 ^ 63`. -/
def int64Bound : Nat := 9223372036854775808

/-- The least number that is beyond the unsigned 64-bit integers, `2 ^ 64`. -/
def word64Bound : Nat := 18446744073709551616

/-- The range of signed 64-bit integers. -/
def fitsInt64 (n : Int) : Bool := -(int64Bound : Int) ≤ n && n < int64Bound

/-- The signed 64-bit integer that agrees with `n` in its last 64 bits. -/
def wrapInt64 (n : Int) : Int := n.bmod word64Bound

/-- The value of a digit. -/
def digitValue (b : UInt8) : Nat := b.toNat - '0'.toNat

/-- The number that a list of decimal digits stands for. -/
def digitsValue (s : Text) : Nat := s.foldl (fun n b => 10 * n + digitValue b) 0

/-- The number written by a non-empty text of digits. -/
def natural? (s : Text) : Option Nat :=
  if s ≠ [] ∧ s.all isDigit then some (digitsValue s) else none

/-- The integer written by digits after an optional sign, whatever its size. -/
def signed? : Text → Option Int
  | [] => none
  | b :: s =>
    if b = ascii '-' then (natural? s).map fun n => -(n : Int)
    else if b = ascii '+' then (natural? s).map Int.ofNat
    else (natural? (b :: s)).map Int.ofNat

/-- The signed 64-bit integer written by digits after an optional sign. -/
def int64? (s : Text) : Option Int := (signed? s).filter fitsInt64

/-- The decimal digits of a natural number. -/
def ofNat (n : Nat) : Text := (Nat.toDigits 10 n).map ascii

/-- The decimal text of an integer. -/
def ofInt : Int → Text
  | .ofNat n => ofNat n
  | .negSucc n => ascii '-' :: ofNat (n + 1)

end DtoSchema.Text
