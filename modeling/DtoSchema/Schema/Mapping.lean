import DtoSchema.Declaration.Basic
import DtoSchema.Diagnostic.Basic
import DtoSchema.Naming.Suggestion
import DtoSchema.Schema.Expr
import DtoSchema.Schema.TypeText

/-!
# From declared types to schema expressions

The mapping of a type never fails: what it cannot resolve becomes the schema of anything, with a
diagnostic that says so.  Names resolve to declared enumerations, overrides, built-in types, dates
and declared classes, in this order; arrays, lists and maps resolve to the schemas of their members.
A type that nests deeper than the limit gives one error, and the mapping stops there.
-/

namespace DtoSchema.Schema

open Text Source

/-! ### Built-in names -/

/-- The built-in types. -/
def scalars : List (Text × Expr) :=
  [("String", .string),
    ("byte", .integer), ("Byte", .integer), ("short", .integer), ("Short", .integer),
    ("int", .integer), ("Int", .integer), ("Integer", .integer),
    ("long", .number), ("Long", .number), ("float", .number), ("Float", .number),
    ("double", .number), ("Double", .number),
    ("boolean", .boolean), ("Boolean", .boolean),
    ("char", .character), ("Character", .character), ("Char", .character),
    ("ByteArray", .array .integer), ("ShortArray", .array .integer), ("IntArray", .array .integer),
    ("LongArray", .array .number), ("FloatArray", .array .number), ("DoubleArray", .array .number),
    ("BooleanArray", .array .boolean), ("CharArray", .array .character)]

/-- The names of dates and times. -/
def dateNames : List Text :=
  ["Instant", "LocalDate", "LocalTime", "LocalDateTime", "OffsetDateTime", "ZonedDateTime"]

/-- A type is that of a date or time, by its name as written and its simple name. -/
def isDate (name simple : Text) : Bool :=
  name == utf8 "java.util.Date" || startsWith name "java.time." || simple ∈ dateNames

/-- The collections with one argument. -/
def listNames : List Text :=
  ["List", "Set", "Collection", "Iterable", "ArrayList", "LinkedList", "HashSet", "LinkedHashSet",
    "TreeSet", "SortedSet"]

/-- The collections with a key and a value. -/
def mapNames : List Text :=
  ["Map", "HashMap", "LinkedHashMap", "TreeMap", "SortedMap", "ConcurrentHashMap"]

/-- The qualifiers that collections may have. -/
def collectionQualifiers : List Text :=
  ["java.util.concurrent.", "java.util.", "kotlin.collections."]

/-- The name without the qualifier of a collection. -/
def collectionName (name : Text) : Text :=
  (collectionQualifiers.findSome? (afterPrefix? · name)).getD name

/-! ### Diagnostics -/

/-- The code of a type that is not known. -/
def unknownTypeCode : Text := "unknown_type"

/-- The code of a key that is written as a text instead. -/
def unsupportedKeyCode : Text := "unsupported_map_key"

/-- The code of a type that nests too deeply. -/
def tooDeepCode : Text := "type_nested_too_deeply"

/-- The diagnostic of a type that is not known. -/
def unknownType (name : Text) (suggestions : List Text) : Diagnostic where
  level := .warn
  code := unknownTypeCode
  message := "Unknown type '" ++ name ++ "' → z.unknown()"
  suggestions := suggestions

/-- The diagnostic of a key that is written as a text instead. -/
def unsupportedKey (key : Text) : Diagnostic where
  level := .warn
  code := unsupportedKeyCode
  message := "Map key '" ++ key ++ "' not supported → string keys used"

/-- The diagnostic of a type that nests too deeply. -/
def tooDeep (root : Text) : Diagnostic where
  level := .error
  code := tooDeepCode
  message := "Type nested too deeply: '" ++ root ++ "'"

/-! ### Mapping -/

/-- What names resolve to. -/
structure Resolver where
  /-- The declared names. -/
  table : SymbolTable := {}
  /-- Expressions that replace types, by the name of the type. -/
  overrides : List (Text × Text) := []

/-- What a type is mapped to. -/
structure Mapped where
  /-- The schema expression. -/
  expr : Expr
  /-- What there is to say about it. -/
  diagnostics : List Diagnostic := []
  /-- The limit of nesting was passed. -/
  halted : Bool := false
  deriving DecidableEq, Repr

/-- The override of a type, by its name as written or else by its simple name. -/
def Resolver.override? (r : Resolver) (name simple : Text) : Option Text :=
  (r.overrides.lookup name).or (r.overrides.lookup simple)

/-- What a name without arguments is mapped to. -/
def Resolver.leaf (r : Resolver) (name : Text) : Mapped :=
  let simple := simpleName name
  if r.table.hasEnum simple then ⟨.enumRef simple, [], false⟩
  else match r.override? name simple with
    | some text => ⟨.verbatim text, [], false⟩
    | none =>
      match scalars.lookup simple with
      | some e => ⟨e, [], false⟩
      | none =>
        if isDate name simple then ⟨.string, [], false⟩
        else if r.table.hasClass simple then ⟨.classRef simple, [], false⟩
        else ⟨.unknown, [unknownType name (Naming.suggest simple r.table.names)], false⟩

/-- A record from what its key and its value are mapped to.  A key that is not written as a text is
replaced by text keys: its own diagnostics go, and the value is anything. -/
def mapRecord (keyText : Text) (key value : Mapped) : Mapped :=
  if key.halted then ⟨.record .unknown, key.diagnostics, true⟩
  else if key.expr.kind.isTextual then
    ⟨.record value.expr, key.diagnostics ++ value.diagnostics, value.halted⟩
  else if value.halted then ⟨.record .unknown, value.diagnostics, true⟩
  else ⟨.record .unknown, value.diagnostics ++ [unsupportedKey keyText], false⟩

/-- What a type that is no array is mapped to, given the mapping of its arguments. -/
def Resolver.base (r : Resolver) (argument : Text → Mapped) (s : Text) : Mapped :=
  match splitGeneric? s with
  | none => r.leaf s
  | some (name, inner) =>
    if collectionName name ∈ listNames then
      let member := argument inner
      { member with expr := .array member.expr }
    else if collectionName name ∈ mapNames then
      match splitTopLevel (ascii ',') inner with
      | [key, value] => mapRecord (trim key) (argument (trim key)) (argument (trim value))
      | _ => r.leaf s
    else r.leaf s

/-- What a type is mapped to.  `allowance` is the number of levels that the type may still have, and
`root` is the whole type for the error that it has more. -/
def Resolver.mapWithin (r : Resolver) (root : Text) : (allowance : Nat) → Text → Mapped
  | 0, _ => ⟨.unknown, [tooDeep root], true⟩
  | allowance + 1, s =>
    let (s, pairs) := splitArray (unwrap s)
    let mapped := r.base (r.mapWithin root allowance) s
    { mapped with expr := mapped.expr.arrays pairs }

/-- The number of levels below its outermost one that a type may have unless said otherwise. -/
def defaultMaxDepth : Nat := 64

/-- The limit of nesting that a number asks for: any number that is not positive asks for the
default. -/
def depthLimit (maxDepth : Int) : Nat := if maxDepth ≤ 0 then defaultMaxDepth else maxDepth.toNat

/-- What a declared type is mapped to. -/
def Resolver.map (r : Resolver) (maxDepth : Int) (s : Text) : Mapped :=
  r.mapWithin (collapse s) (depthLimit maxDepth + 1) s

end DtoSchema.Schema
