import DtoSchema.Text.Integer

/-!
# Parts of dates and times
-/

namespace DtoSchema.Text

/-- A number of one or two digits at the start of a text, and what follows. -/
def shortNumber? : Text → Option (Nat × Text)
  | a :: b :: s =>
    if !isDigit a then none
    else if isDigit b then some (digitsValue [a, b], s)
    else some (digitValue a, b :: s)
  | [a] => if isDigit a then some (digitValue a, []) else none
  | [] => none

/-- A number of one or two digits up to `last`, and what follows. -/
def shortUpTo? (last : Nat) (s : Text) : Option (Nat × Text) := (shortNumber? s).filter (·.1 ≤ last)

/-- The year is a leap year. -/
def isLeap (year : Nat) : Bool := year % 4 == 0 && (year % 100 != 0 || year % 400 == 0)

/-- The number of days of a month. -/
def daysIn (year month : Nat) : Nat :=
  if month = 2 then if isLeap year then 29 else 28
  else if month = 4 ∨ month = 6 ∨ month = 9 ∨ month = 11 then 30
  else 31

/-- The text without a fraction of a second at its start. -/
def skipFraction (s : Text) : Text :=
  match s with
  | a :: b :: _ =>
    if (a == ascii '.' || a == ascii ',') && isDigit b then s.tail.dropWhile isDigit else s
  | _ => s

/-- The text is a time zone. -/
def isZone (s : Text) : Bool :=
  match s with
  | [b] => b == ascii 'Z'
  | [sign, h, h', colon, m, m'] =>
    (sign == ascii '+' || sign == ascii '-') && colon == ascii ':' &&
      [h, h', m, m'].all isDigit && digitsValue [h, h'] ≤ 24 && digitsValue [m, m'] ≤ 60
  | _ => false

end DtoSchema.Text
