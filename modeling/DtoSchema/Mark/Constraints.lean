import DtoSchema.Mark.Basic
import DtoSchema.Text.Integer

/-!
# Constraints read from annotations

The annotations of a field say how its values are restricted and under which name it is serialized.
`Constraints` collects what they say.  Where an annotation is repeated, the first one that says
something usable counts; the markers are simply switched on.
-/

namespace DtoSchema

open Text Source

/-- Limits on a size. -/
structure Bounds where
  /-- The least size. -/
  min : Option Int := none
  /-- The greatest size. -/
  max : Option Int := none
  deriving DecidableEq, Repr

/-- A bound given by the text of a decimal number. -/
structure DecimalBound where
  /-- The text between the quotes. -/
  text : Text
  /-- The bound itself is allowed. -/
  inclusive : Bool
  deriving DecidableEq, Repr

/-- What the annotations of a field say. -/
structure Constraints where
  /-- The value may be missing. -/
  nullable : Bool := false
  /-- The value may not be missing. -/
  notNull : Bool := false
  /-- Limits on the length of a text or the number of members. -/
  size : Option Bounds := none
  /-- The least number. -/
  min : Option Int := none
  /-- The greatest number. -/
  max : Option Int := none
  /-- The text of a regular expression, empty for none. -/
  pattern : Text := []
  /-- The serialized name, empty for none. -/
  rename : Text := []
  /-- The text is a mail address. -/
  email : Bool := false
  /-- The text is not empty. -/
  notBlank : Bool := false
  /-- The number is above zero. -/
  positive : Bool := false
  /-- The number is below zero. -/
  negative : Bool := false
  /-- The least number, as a decimal text. -/
  decimalMin : Option DecimalBound := none
  /-- The greatest number, as a decimal text. -/
  decimalMax : Option DecimalBound := none
  /-- The annotations as written, whether they were understood or not. -/
  raw : List Text := []
  deriving DecidableEq, Repr

namespace Constraints

/-- No annotation was understood. -/
def isTrivial (c : Constraints) : Bool := { c with raw := [] } == ({} : Constraints)

/-! ### Values of arguments -/

/-- The raw text between the quotes of a double-quoted literal; escapes stay as written. -/
def stringLiteral? (v : Text) : Option Text :=
  match trim v with
  | q :: s =>
    if q = ascii '"' ∧ s.getLast? = some (ascii '"') then some s.dropLast else none
  | [] => none

/-- The number written by a decimal literal, with any run of the suffixes `l` and `L`. -/
def integerLiteral? (v : Text) : Option Int :=
  int64? (dropWhileEnd (fun b => b == ascii 'l' || b == ascii 'L') (trim v))

/-- The limits that a size annotation gives; without parentheses it gives none. -/
def sizeOf? (a : Mark) : Option Bounds :=
  if a.body.isSome then
    some ⟨(a.named? "min").bind integerLiteral?, (a.named? "max").bind integerLiteral?⟩
  else none

/-- The integer that an annotation gives as its value. -/
def integerOf? (a : Mark) : Option Int := a.value?.bind integerLiteral?

/-- The non-empty decimal text that an annotation gives as its value.  The bound is inclusive unless
the annotation says `inclusive = false`. -/
def decimalOf? (a : Mark) : Option DecimalBound :=
  match a.value?.bind stringLiteral? with
  | none | some [] => none
  | some text => some ⟨text, (a.named? "inclusive").map trim != some "false"⟩

/-- The text that an annotation gives for the key `regexp`. -/
def patternOf (a : Mark) : Text := ((a.named? "regexp").bind stringLiteral?).getD []

/-- The text that an annotation gives as its value. -/
def renameOf (a : Mark) : Text := (a.value?.bind stringLiteral?).getD []

/-- The first of two texts that is not empty. -/
def firstText (s t : Text) : Text := if s.isEmpty then t else s

/-- What the constraints say once the annotation `a` has been taken into account. -/
def apply (c : Constraints) (a : Mark) : Constraints :=
  let name := a.simpleName
  if name = "Nullable" then { c with nullable := true }
  else if name = "NotNull" ∨ name = "Nonnull" then { c with notNull := true }
  else if name = "Size" then { c with size := c.size.or (sizeOf? a) }
  else if name = "Min" then { c with min := c.min.or (integerOf? a) }
  else if name = "Max" then { c with max := c.max.or (integerOf? a) }
  else if name = "Pattern" then { c with pattern := firstText c.pattern (patternOf a) }
  else if name = "JsonProperty" then { c with rename := firstText c.rename (renameOf a) }
  else if name = "Email" then { c with email := true }
  else if name = "NotBlank" ∨ name = "NotEmpty" then { c with notBlank := true }
  else if name = "Positive" then { c with positive := true }
  else if name = "Negative" then { c with negative := true }
  else if name = "DecimalMin" then { c with decimalMin := c.decimalMin.or (decimalOf? a) }
  else if name = "DecimalMax" then { c with decimalMax := c.decimalMax.or (decimalOf? a) }
  else c

/-- One more annotation.  It is recorded as written, and takes effect if it has no target. -/
def add (c : Constraints) (a : Mark) : Constraints :=
  let c := { c with raw := c.raw ++ [a.text] }
  if a.target.isEmpty then c.apply a else c

/-! ### The two dialects -/

/-- The constraints of a field in the Java dialect, from the text of its annotations. -/
def ofJava (s : Text) : Constraints := (Mark.readAll s).foldl add {}

/-- `dropTargets` from inside a text: the number counts the bytes still to be skipped. -/
def dropTargetsFrom : Nat → Text → Text
  | _, [] => []
  | k + 1, _ :: s => dropTargetsFrom k s
  | 0, b :: s =>
    if (utf8 "@field:").isPrefixOf (b :: s) then b :: dropTargetsFrom "field:".length s
    else if (utf8 "@get:").isPrefixOf (b :: s) then b :: dropTargetsFrom "get:".length s
    else b :: dropTargetsFrom 0 s

/-- The text with the targets `field:` and `get:` removed from its annotations. -/
def dropTargets (s : Text) : Text := dropTargetsFrom 0 s

/-- The non-empty name that a serializer's own annotation `Json(name = ...)` gives. -/
def jsonNameOf? (a : Mark) : Option Text :=
  if a.target.isEmpty ∧ a.simpleName = "Json" then
    ((a.named? "name").bind stringLiteral?).filter (!·.isEmpty)
  else none

/-- The constraints of a field in the Kotlin dialect, from the text of its annotations.  The targets
`field:` and `get:` make no difference, and a name given by `Json` comes before every other one. -/
def ofKotlin (s : Text) : Constraints :=
  let s := dropTargets s
  let c := ofJava s
  match (Mark.readAll s).findSome? jsonNameOf? with
  | some name => { c with rename := name }
  | none => c

end Constraints

end DtoSchema
