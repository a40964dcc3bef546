import DtoSchema.Text.Integer

/-!
# Schema expressions

A schema expression says which values a field may have.  Expressions are built from the schemas of
single values, arrays, records with text keys, and references to the schemas of declared
enumerations and classes; a class is referred to lazily, so that classes may refer to each other.
An expression that was given as a text stands for itself.
-/

namespace DtoSchema.Schema

open Text

/-- The outermost constructor of a schema expression. -/
inductive Kind where
  /-- Anything. -/
  | unknown
  /-- Texts. -/
  | string
  /-- Numbers. -/
  | number
  /-- Truth values. -/
  | boolean
  /-- Arrays. -/
  | array
  /-- Records with text keys. -/
  | record
  /-- A declared enumeration. -/
  | enum
  /-- A declared class. -/
  | lazy
  /-- Something else. -/
  | custom
  deriving DecidableEq, Repr

namespace Kind

/-- All kinds, in the order of their numbers, which start with one. -/
def all : List Kind := [unknown, string, number, boolean, array, record, enum, lazy, custom]

/-- The name of a kind. -/
def name : Kind → Text
  | unknown => "unknown"
  | string => "string"
  | number => "number"
  | boolean => "boolean"
  | array => "array"
  | record => "record"
  | enum => "enum"
  | lazy => "lazy"
  | custom => "custom"

/-- The kind of a given name. -/
def ofName? (s : Text) : Option Kind := all.find? (·.name == s)

/-- The kind of a given number. -/
def ofNumber? (n : Int) : Option Kind := if n < 1 then none else all[(n - 1).toNat]?

/-- The name of the kind of a given number; a number without kind is named by itself. -/
def nameOfNumber (n : Int) : Text :=
  match ofNumber? n with
  | some k => k.name
  | none => "Kind(" ++ ofInt n ++ ")"

/-- The values of the kind are written as texts, so that they can be the keys of a record. -/
def isTextual : Kind → Bool
  | string | enum => true
  | _ => false

/-- The text is the name of a schema constant: a name that ends in `Schema` and starts before it. -/
def isSchemaName : Text → Bool
  | [] => false
  | b :: s => (isLetter b || b == ascii '_') && s.all isWord && endsWith s "Schema"

/-- The kind of an expression that is given as a text. -/
def ofText (s : Text) : Kind :=
  if startsWith s "z.string()" then string
  else if startsWith s "z.number()" then number
  else if startsWith s "z.boolean()" then boolean
  else if startsWith s "z.array(" then array
  else if startsWith s "z.record(" then record
  else if startsWith s "z.lazy(" then lazy
  else if startsWith s "z.unknown()" then unknown
  else if isSchemaName s then enum
  else custom

end Kind

/-- A schema expression. -/
inductive Expr where
  /-- Anything. -/
  | unknown
  /-- A text. -/
  | string
  /-- A text of one character. -/
  | character
  /-- A number. -/
  | number
  /-- A whole number. -/
  | integer
  /-- A truth value. -/
  | boolean
  /-- An array of members. -/
  | array (member : Expr)
  /-- A record of values under text keys. -/
  | record (value : Expr)
  /-- A declared enumeration. -/
  | enumRef (name : Text)
  /-- A declared class. -/
  | classRef (name : Text)
  /-- An expression given as a text. -/
  | verbatim (text : Text)
  deriving DecidableEq, Repr

namespace Expr

/-- The text of an expression. -/
def text : Expr → Text
  | unknown => "z.unknown()"
  | string => "z.string()"
  | character => "z.string().length(1)"
  | number => "z.number()"
  | integer => "z.number().int()"
  | boolean => "z.boolean()"
  | array member => "z.array(" ++ member.text ++ ")"
  | record value => "z.record(z.string(), " ++ value.text ++ ")"
  | enumRef name => name ++ "Schema"
  | classRef name => "z.lazy(() => " ++ name ++ "Schema)"
  | verbatim text => text

/-- The outermost constructor of an expression. -/
def kind : Expr → Kind
  | unknown => .unknown
  | string | character => .string
  | number | integer => .number
  | boolean => .boolean
  | array _ => .array
  | record _ => .record
  | enumRef _ => .enum
  | classRef _ => .lazy
  | verbatim text => .ofText text

/-- The expression inside `n` arrays. -/
def arrays : (n : Nat) → Expr → Expr
  | 0, e => e
  | n + 1, e => array (arrays n e)

end Expr

end DtoSchema.Schema
