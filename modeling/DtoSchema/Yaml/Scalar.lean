import DtoSchema.Text.Date
import DtoSchema.Text.Number

/-!
# Scalars

A scalar that is written without quotes and without a tag means what its text looks like: nothing,
a truth value, an integer, a number with a fraction, a date, or else just the text.
-/

namespace DtoSchema.Yaml

open Text

/-- What a scalar means. -/
inductive Scalar where
  /-- Nothing. -/
  | null
  /-- A truth value. -/
  | bool (b : Bool)
  /-- An integer below `2 ^ 64`. -/
  | int (n : Int)
  /-- A finite number with a fraction or an exponent. -/
  | float (negative : Bool) (magnitude : Binary64)
  /-- An infinite number. -/
  | infinity (negative : Bool)
  /-- What is no number. -/
  | nan
  /-- A date, possibly with a time. -/
  | timestamp
  /-- A text. -/
  | text
  deriving DecidableEq, Repr

namespace Scalar

/-! ### Words -/

/-- The words with a meaning of their own. -/
def words : List (Text × Scalar) :=
  [("", null), ("~", null), ("null", null), ("Null", null), ("NULL", null),
    ("true", bool true), ("True", bool true), ("TRUE", bool true),
    ("false", bool false), ("False", bool false), ("FALSE", bool false),
    (".nan", nan), (".NaN", nan), (".NAN", nan),
    (".inf", infinity false), (".Inf", infinity false), (".INF", infinity false),
    ("+.inf", infinity false), ("+.Inf", infinity false), ("+.INF", infinity false),
    ("-.inf", infinity true), ("-.Inf", infinity true), ("-.INF", infinity true)]

/-! ### Dates -/

/-- What follows a date at the start of a text: a year of four digits, a month and a day. -/
def afterDate? (s : Text) : Option Text :=
  if (s.takeWhile isDigit).length = 4 then
    let year := digitsValue (s.take 4)
    (afterPrefix? "-" (s.drop 4)).bind fun s => (shortUpTo? 12 s).bind fun (month, s) =>
      (afterPrefix? "-" s).bind fun s => (shortUpTo? 31 s).bind fun (day, s) =>
        if 1 ≤ month ∧ 1 ≤ day ∧ day ≤ daysIn year month then some s else none
  else none

/-- What follows a time of day at the start of a text. -/
def afterTime? (s : Text) : Option Text :=
  (shortUpTo? 23 s).bind fun (_, s) => (afterPrefix? ":" s).bind fun s =>
    (shortUpTo? 59 s).bind fun (_, s) => (afterPrefix? ":" s).bind fun s =>
      (shortUpTo? 59 s).map fun (_, s) => skipFraction s

/-- The text is a date, or a date with a time: after the letter `T` with a time zone, after spaces
without. -/
def isTimestamp (s : Text) : Bool :=
  match afterDate? s with
  | none => false
  | some [] => true
  | some (b :: s) =>
    if b = ascii 'T' ∨ b = ascii 't' then (afterTime? s).any isZone
    else b == ascii ' ' && (afterTime? (s.dropWhile (· == ascii ' '))).any (·.isEmpty)

/-! ### Numbers -/

/-- A number with the prefix of a base whose sign stands behind the prefix. -/
def innerSigned? (name : Text) (base : Nat) (s : Text) : Option Int :=
  ((afterPrefix? name s).bind fun s => (signedBy (naturalIn base) s).toOption)

/-- The meaning of a text without underscores that starts with a digit or a sign, and is no date. -/
def number (s : Text) : Scalar :=
  match anyBaseInteger s with
  | .ok n => int n
  | .error _ =>
    match anyBaseNatural s with
    | .ok n => int n
    | .error _ =>
      match (decimal? s).bind fun d => d.magnitude?.map fun x => float d.negative x with
      | some x => x
      | none =>
        match (innerSigned? "0b" 2 s).or (innerSigned? "0o" 8 s) with
        | some n => int n
        | none => text

/-- The meaning of a text that is written without quotes and without a tag, dates apart. -/
def undated (s : Text) : Scalar :=
  match words.lookup s, s.head? with
  | some meaning, _ => meaning
  | none, none => text
  | none, some b =>
    if isDigit b || b == ascii '+' || b == ascii '-' then number (s.filter (· != ascii '_'))
    else if b = ascii '.' then
      ((decimal? s).bind fun d => d.magnitude?.map fun x => float d.negative x).getD text
    else text

/-- The meaning of a text that is written without quotes and without a tag. -/
def resolve (s : Text) : Scalar := if isTimestamp s then timestamp else undated s

end Scalar

/-! ### Texts that are quoted for older readers -/

/-- The words that stood for the true in an earlier version of the language. -/
def oldTrueWords : List Text := ["y", "Y", "yes", "Yes", "YES", "on", "On", "ON"]

/-- The words that stood for the false in an earlier version of the language. -/
def oldFalseWords : List Text := ["n", "N", "no", "No", "NO", "off", "Off", "OFF"]

/-- The words that were truth values in an earlier version of the language. -/
def oldTruthWords : List Text := oldTrueWords ++ oldFalseWords

/-- One or two digits of a number below sixty. -/
def isSexagesimalDigit (g : Text) : Bool :=
  g.all isDigit && (g.length == 1 || (g.length == 2 && digitsValue g < 60))

/-- The groups of a number in base sixty after the first one, each of them a number below sixty, the
last one possibly with a fraction. -/
def isSexagesimalTail : (groups : List Text) → Bool
  | [] => true
  | [g] =>
    let (whole, fraction) := (cut? (ascii '.') g).getD (g, [])
    isSexagesimalDigit whole && fraction.all (fun b => isDigit b || b == ascii '_')
  | g :: gs => isSexagesimalDigit g && isSexagesimalTail gs

/-- The text was a number in base sixty in an earlier version of the language. -/
def isSexagesimal (s : Text) : Bool :=
  match pieces (ascii ':') (withoutSign s) with
  | first :: second :: rest =>
    first.head?.any isDigit && first.all (fun b => isDigit b || b == ascii '_') &&
      isSexagesimalTail (second :: rest)
  | _ => false

end DtoSchema.Yaml
