import DtoSchema.Text.Base64
import DtoSchema.Yaml.Scalar

/-!
# Values of scalars

What is asked of a document decides how its scalars are understood: where a text is wanted, a number
is taken as it is written, and where an integer is wanted, a fraction is cut off.
-/

namespace DtoSchema.Yaml

open Text

/-- What a scalar node stands for: its meaning and its text. -/
structure Value where
  /-- The meaning. -/
  meaning : Scalar
  /-- The text. -/
  text : Text

namespace Value

/-- The value of a scalar with a tag that demands a meaning of a certain kind. -/
def demand? (accepts : Scalar → Bool) (meaning : Scalar) (text : Text) : Option Value :=
  if accepts meaning then some ⟨meaning, text⟩ else none

/-- An integer as a number with a fraction. -/
def widen : Scalar → Scalar
  | .int n => if n < int64Bound then .float (n < 0) (Binary64.nearest n.natAbs 1) else .int n
  | meaning => meaning

/-- The meaning is a number with a fraction. -/
def isFraction : Scalar → Bool
  | .float .. | .infinity _ | .nan => true
  | _ => false

/-- The value of a scalar with the given tag. -/
def ofTagged? (tag text : Text) : Option Value :=
  if tag = "!!binary" then (ofBase64? text).map fun bytes => ⟨.text, bytes⟩
  else if tag = "!!null" then demand? (· == .null) (.undated text) text
  else if tag = "!!bool" then demand? (fun | .bool _ => true | _ => false) (.undated text) text
  else if tag = "!!int" then demand? (fun | .int _ => true | _ => false) (.undated text) text
  else if tag = "!!float" then demand? isFraction (widen (.undated text)) text
  else if tag = "!!timestamp" then demand? (· == .timestamp) (.resolve text) text
  else some ⟨.text, text⟩

/-- The value of a scalar. -/
def ofScalar? (tag : Option Text) (plain : Bool) (text : Text) : Option Value :=
  match tag with
  | some tag => ofTagged? tag text
  | none => some ⟨if plain then .resolve text else .text, text⟩

/-- The 64-bit integer of a number with a fraction.  What lies below all of them becomes the least
one, and so does `2 ^ 63`. -/
def truncated? (negative : Bool) (magnitude : Binary64) : Option Int :=
  let whole := magnitude.floor
  if negative then some (if whole < int64Bound then -whole else -int64Bound)
  else if magnitude.units ≤ int64Bound * Binary64.one.units then some (wrapInt64 whole)
  else none

/-- The integer that a value stands for. -/
def integer? (v : Value) : Option Int :=
  match v.meaning with
  | .int n => if fitsInt64 n then some n else none
  | .float negative magnitude => truncated? negative magnitude
  | .infinity true => some (-int64Bound)
  | _ => none

/-- The truth value that a value stands for. -/
def truth? (v : Value) : Option Bool :=
  match v.meaning with
  | .bool b => some b
  | .text =>
    if oldTrueWords.contains v.text then some true
    else if oldFalseWords.contains v.text then some false
    else none
  | _ => none

end Value

end DtoSchema.Yaml
