import DtoSchema.Mark.Constraints
import DtoSchema.Schema.Expr
import DtoSchema.Schema.Literal

/-!
# Refinements

The constraints of a field refine its schema by calls appended to it.  Which of them apply depends
on the kind of the schema.
-/

namespace DtoSchema.Schema

open Text

/-- The call of a method with an integer as its argument. -/
def integerCall (method : Text) : Option Int → Text
  | some n => "." ++ method ++ "(" ++ ofInt n ++ ")"
  | none => []

/-- The calls for the limits of a size. -/
def sizeCalls : Option Bounds → Text
  | some size => integerCall "min" size.min ++ integerCall "max" size.max
  | none => []

/-- The call for a decimal bound, with its text unchanged. -/
def decimalCall (method : Text) : Option DecimalBound → Text
  | some d =>
    "." ++ method ++ "(" ++ d.text ++
      onlyIf (!d.inclusive) ", \x7b inclusive: false \x7d" ++ ")"
  | none => []

/-- The calls by which constraints refine a schema of the given kind. -/
def refinements (c : Constraints) : Kind → Text
  | .string =>
    onlyIf (!c.pattern.isEmpty) (".regex(" ++ regexLiteral c.pattern ++ ")") ++
      sizeCalls c.size ++ onlyIf c.email ".email()" ++ onlyIf c.notBlank ".min(1)"
  | .array => sizeCalls c.size
  | .number =>
    integerCall "min" c.min ++ integerCall "max" c.max ++ onlyIf c.positive ".positive()" ++
      onlyIf c.negative ".negative()" ++ decimalCall "min" c.decimalMin ++
      decimalCall "max" c.decimalMax
  | _ => []

/-- The text of a schema refined by constraints; a schema without kind is not refined. -/
def refine (text : Text) (kind : Option Kind) (c : Constraints) : Text :=
  text ++ (kind.map (refinements c)).getD []

/-- The call that makes a schema optional. -/
def optionalCall : Text := ".optional()"

/-- `mergeOptional` from inside a text: the number counts the bytes still to be skipped. -/
def mergeOptionalFrom : Nat → Text → Text
  | _, [] => []
  | k + 1, _ :: s => mergeOptionalFrom k s
  | 0, b :: s =>
    if (optionalCall ++ optionalCall).isPrefixOf (b :: s) then
      mergeOptionalFrom (optionalCall.length - 1) s
    else b :: mergeOptionalFrom 0 s

/-- The text with every run of the call that makes a schema optional written as one. -/
def mergeOptional (s : Text) : Text := mergeOptionalFrom 0 s

/-- The text of a schema made optional, which shows as one call at its end. -/
def makeOptional (s : Text) : Text :=
  mergeOptional (if endsWith s optionalCall then s else s ++ optionalCall)

end DtoSchema.Schema
