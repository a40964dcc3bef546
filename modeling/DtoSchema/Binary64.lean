/-!
# Binary floating point numbers

The non-negative finite numbers of the 64-bit binary floating point format have 53 significant bits;
a number between two of them is rounded to the nearer one, a tie to the one whose last bit is even.
A number is stored as the multiple that it is of the least positive one, so that numbers are
compared exactly and nothing depends on how a machine computes with them.
-/

namespace DtoSchema

/-- A non-negative finite number, as a multiple of `2 ^ -1074`. -/
structure Binary64 where
  /-- The multiple. -/
  units : Nat
  deriving DecidableEq, Repr

namespace Binary64

/-- The quotient of two numbers, rounded to the nearest whole number, a tie to the even one. -/
def roundQuotient (num den : Nat) : Nat :=
  let q := num / den
  let twice := 2 * (num % den)
  if den < twice || (twice == den && q % 2 == 1) then q + 1 else q

/-- The number one. -/
def one : Binary64 := ⟨Nat.pow 2 1074⟩

/-- The number nearest to `num / den`.  The quotient in units is rounded at the place that leaves 53
significant bits. -/
def nearest (num den : Nat) : Binary64 :=
  let scaled := num * one.units
  let place := Nat.pow 2 ((scaled / den).log2 - 52)
  ⟨roundQuotient scaled (den * place) * place⟩

/-- The number is within the range of the format. -/
def inRange (x : Binary64) : Bool := x.units < Nat.pow 2 2098

/-- One minus a number that is at most one, rounded. -/
def complement (x : Binary64) : Binary64 := nearest (one.units - x.units) one.units

/-- The greater of two numbers. -/
def max (x y : Binary64) : Binary64 := if x.units ≤ y.units then y else x

/-- The whole part of a number. -/
def floor (x : Binary64) : Nat := x.units / one.units

/-- The bits of a number in the format. -/
def bits (x : Binary64) : Nat :=
  let leading := Nat.pow 2 52
  if x.units < leading then x.units
  else
    let shift := x.units.log2 - 52
    (shift + 1) * leading + (x.units / Nat.pow 2 shift - leading)

end Binary64

end DtoSchema
