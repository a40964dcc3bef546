import DtoSchema.Toml.Literal

/-!
# Documents of TOML

A document is a tree of tables, which is kept as the list of the keys that lead to something, each
with what it leads to.  The keys of a document also keep the order in which they were written.

A table may be mentioned by a longer key before it is defined, and then it is there implicitly.
Such a table can still be defined, once.
-/

namespace DtoSchema.Toml

open Text

/-- A key is the list of its names. -/
abbrev Key := List Text

/-- The keys of the tables that a key lies in, the outermost first. -/
def Key.parents : Key → List Key
  | [] | [_] => []
  | name :: names => [name] :: (parents names).map (name :: ·)

/-- A value that is no table. -/
inductive Value where
  /-- A text. -/
  | text (s : Text)
  /-- An integer. -/
  | integer (n : Int)
  /-- A truth value. -/
  | bool (b : Bool)
  /-- A list. -/
  | list
  /-- A date or time, or a number that is no integer. -/
  | other
  deriving DecidableEq, Repr

/-- What a key leads to. -/
inductive Entry where
  /-- A value. -/
  | value (v : Value)
  /-- A table. -/
  | table
  /-- A list of tables, the last of which is being written. -/
  | tables
  deriving DecidableEq, Repr

/-- A document. -/
structure Document where
  /-- What each key leads to; of a list of tables only the last one is kept. -/
  entries : List (Key × Entry) := []
  /-- The tables that are there implicitly. -/
  implicit : List Key := []
  /-- The keys whose value is a list. -/
  lists : List Key := []
  /-- The keys as they were written, the last one first. -/
  written : List Key := []

namespace Document

/-- What a key leads to. -/
def get? (d : Document) (k : Key) : Option Entry := d.entries.lookup k

/-- The document with a key leading to something new; what was below the key is gone. -/
def put (d : Document) (k : Key) (e : Entry) : Document :=
  { d with entries := (k, e) :: d.entries.filter fun (j, _) => !k.isPrefixOf j }

/-- The document with a table that is there implicitly. -/
def addImplicit (d : Document) (k : Key) : Document := { d with implicit := k :: d.implicit }

/-- The document with a table that is not implicit any more. -/
def dropImplicit (d : Document) (k : Key) : Document :=
  { d with implicit := d.implicit.filter (· != k) }

/-- The document with a key noted as written. -/
def note (d : Document) (k : Key) : Document := { d with written := k :: d.written }

/-- The document with the kind of a value noted: whether it is a list. -/
def mark (d : Document) (k : Key) (isList : Bool) : Document :=
  { d with lists := if isList then k :: d.lists else d.lists.filter (· != k) }

/-- There is a table, or a list of tables, at every proper part of a key. -/
def hasParents (d : Document) (k : Key) : Bool :=
  (Key.parents k).all fun p => (d.get? p).any fun e => e == .table || e == .tables

/-- The document with something new at a key.  What is there already may only be a list or an
implicit table: the one is replaced, and the other is kept. -/
def define? (d : Document) (k : Key) (e : Entry) : Option Document :=
  if !d.hasParents k then none
  else match d.get? k with
    | none => some (d.put k e)
    | some _ =>
      if d.lists.contains k then some ((d.dropImplicit k).put k e)
      else if d.implicit.contains k then some (d.dropImplicit k)
      else none

/-- The document with implicit tables at all the given keys that lead to nothing yet.  What is there
already has to be a table or a list of tables. -/
def ensureParents? (d : Document) : List Key → Option Document
  | [] => some d
  | p :: ps =>
    match d.get? p with
    | none => ensureParents? ((d.addImplicit p).put p .table) ps
    | some (.value _) => none
    | some _ => ensureParents? d ps

/-- The document with a table at a key. -/
def openTable? (d : Document) (k : Key) : Option Document :=
  (d.ensureParents? (Key.parents k)).bind fun d => d.define? k .table

/-- The document with one more table in the list at a key. -/
def openListed? (d : Document) (k : Key) : Option Document :=
  (d.ensureParents? (Key.parents k)).bind fun d =>
    match d.get? k with
    | none | some .tables => some (d.put k .tables)
    | some _ => none

/-- The document with implicit tables along the names of a dotted key, starting at a table. -/
def openDotted? (d : Document) (base : Key) : List Text → Option Document
  | [] => some d
  | name :: names =>
    let k := base ++ [name]
    ((d.addImplicit k).openTable? k).bind fun d => openDotted? d k names

/-! ### Keys -/

/-- The bytes of a name without quotes. -/
def isBare (b : UInt8) : Bool := isWord b || b == ascii '-'

/-- A name here, and what follows it. -/
def name? (s : Text) : Option (Text × Text) :=
  let bare := s.takeWhile isBare
  if bare.isEmpty then lineText? s else some (bare, s.drop bare.length)

/-- The names of a key here, and what follows it. -/
def key? : (fuel : Nat) → Text → Option (Key × Text)
  | 0, _ => none
  | fuel + 1, s =>
    (name? (skipBlanks s)).bind fun (name, s) =>
      let s := skipBlanks s
      match afterPrefix? "." s with
      | some s => (key? fuel s).map fun (names, rest) => (name :: names, rest)
      | none => some ([name], s)

/-! ### Values -/

/-- The bytes of a date or time behind its first digits. -/
def isDatetimeByte (b : UInt8) : Bool :=
  isDigit b || (["-", ":", "T", "t", " ", ".", "Z", "z", "+"] : List Text).contains [b]

/-- The bytes of a number with a fraction. -/
def isFloatByte (b : UInt8) : Bool :=
  isDigit b || (["_", ".", "-", "+", "e", "E"] : List Text).contains [b]

/-- A literal of the bytes of a class, if it passes a test. -/
def literal? (s : Text) (isByte : UInt8 → Bool) (read : Text → Option Value) :
    Option (Value × Text) :=
  let body := s.takeWhile isByte
  (read body).map fun v => (v, s.drop body.length)

/-- A literal of which only the kind counts. -/
def otherIf (test : Bool) : Option Value := if test then some .other else none

/-- A number in another base here, whose prefix has been seen. -/
def basedNumber? (base : Nat) (s : Text) : Option (Value × Text) :=
  let digits := (s.drop 2).takeWhile fun b => (digitIn? base b).isSome || b == ascii '_'
  if digits.head?.any (· != ascii '_') then
    (integer? (s.take (digits.length + 2))).map fun n => (.integer n, s.drop (digits.length + 2))
  else none

/-- A decimal number here, possibly with a sign. -/
def decimalNumber? (s : Text) : Option (Value × Text) :=
  let unsigned := withoutSign s
  let whole := unsigned.takeWhile fun b => isDigit b || b == ascii '_'
  let width := s.length - unsigned.length + whole.length
  if !unsigned.head?.any isDigit then none
  else if (s.drop width).head?.any isFloatMark then
    let body := unsigned.takeWhile isFloatByte
    let width := s.length - unsigned.length + body.length
    (otherIf (isFloat (s.take width))).map fun v => (v, s.drop width)
  else (integer? (s.take width)).map fun n => (.integer n, s.drop width)

/-- A number, date or time here, which starts with a digit. -/
def numeric? (s : Text) : Option (Value × Text) :=
  let digits := (s.takeWhile isDigit).length
  match s with
  | 0x30 :: 0x62 :: _ => basedNumber? 2 s
  | 0x30 :: 0x6f :: _ => basedNumber? 8 s
  | 0x30 :: 0x78 :: _ => basedNumber? 16 s
  | _ =>
    if (s.drop digits).head?.any (fun b => b == ascii '-' || b == ascii ':') &&
        !(digits == 1 && s.head? == some (ascii '0')) then
      literal? s isDatetimeByte fun body =>
        otherIf (isDatetime (dropWhileEnd (· == ascii ' ') body))
    else decimalNumber? s

/-- A bare value here: a number, a date, a time, or one of the words for truth values and for
numbers that are not finite. -/
def bareValue? (s : Text) : Option (Value × Text) :=
  let word := (withoutSign s).takeWhile isLetter
  let rest := (withoutSign s).drop word.length
  if s.head?.any isDigit then numeric? s
  else if word = "inf" ∨ word = "nan" then some (.other, rest)
  else if s.head?.any isLetter then
    if word = "true" then some (.bool true, rest)
    else if word = "false" then some (.bool false, rest)
    else none
  else if [ascii '+', ascii '-'].any (s.head? == some ·) then
    let digits := withoutSign s
    if digits.head? = some (ascii '0') ∧
        digits.tail.head?.any [ascii 'b', ascii 'o', ascii 'x'].contains then none
    else decimalNumber? s
  else none

/-- The place after a comment here, or the place itself. -/
def skipComment (s : Text) : Text :=
  if s.head? = some (ascii '#') then s.dropWhile (!isBreak ·) else s

/-- The place after blanks, line breaks and comments. -/
def skipLines : (fuel : Nat) → Text → Text
  | 0, s => s
  | fuel + 1, s =>
    let after := skipComment (s.dropWhile fun b => isBlank b || isBreak b)
    if after.length = s.length then s else skipLines fuel after

mutual

/-- The value of a key here, which is entered into the document if it is a table.  `listed` says
that the value is an item of a list. -/
def value? : (fuel : Nat) → Document → Key → (listed : Bool) → Text →
    Option (Document × Entry × Text)
  | 0, _, _, _, _ => none
  | fuel + 1, d, k, listed, s =>
    match s with
    | [] => none
    | b :: tail =>
      if b = ascii '[' then
        (items? fuel (d.mark k true) k tail).map fun (d, s) => (d, .value .list, s)
      else if b = ascii '\x7b' then
        let d := d.addImplicit k
        (if listed then d.openListed? k else d.openTable? k).bind fun d =>
          let s := skipBlanks tail
          (match afterPrefix? "\x7d" s with
            | some s => some (d, s)
            | none => pairs? fuel d k s).map fun (d, s) => (d, .table, s)
      else if b = ascii '"' ∨ b = ascii '\'' then
        (text? s).map fun (t, s) => (d, .value (.text t), s)
      else (bareValue? s).map fun (v, s) => (d, .value v, s)

/-- The rest of a list here. -/
def items? : (fuel : Nat) → Document → Key → Text → Option (Document × Text)
  | 0, _, _, _ => none
  | fuel + 1, d, k, s =>
    let s := skipLines s.length s
    match afterPrefix? "]" s with
    | some s => some (d, s)
    | none =>
      (value? fuel d k true s).bind fun (d, _, s) =>
        let s := skipLines s.length s
        match afterPrefix? "]" s, afterPrefix? "," s with
        | some s, _ => some (d, s)
        | none, some s => items? fuel d k s
        | none, none => none

/-- The rest of a table in braces here, which is not empty. -/
def pairs? : (fuel : Nat) → Document → Key → Text → Option (Document × Text)
  | 0, _, _, _ => none
  | fuel + 1, d, k, s =>
    (pair? fuel d k s).bind fun (d, s) =>
      let s := skipBlanks s
      match afterPrefix? "\x7d" s, afterPrefix? "," s with
      | some s, _ => some (d, s)
      | none, some s => pairs? fuel d k (skipBlanks s)
      | none, none => none

/-- A key with its value here, in the table at the key `base`. -/
def pair? : (fuel : Nat) → Document → (base : Key) → Text → Option (Document × Text)
  | 0, _, _, _ => none
  | fuel + 1, d, base, s =>
    (key? (s.length + 1) s).bind fun (names, s) =>
      (afterPrefix? "=" s).bind fun s =>
        (d.openDotted? base names.dropLast).bind fun d =>
          let k := base ++ names
          (value? fuel (d.note k) k false (skipBlanks s)).bind fun (d, e, s) =>
            (d.define? k e).map fun d => (d.mark k (e == .value .list), s)

end

/-! ### Lines -/

/-- What follows the end of a line, behind blanks and a comment. -/
def lineEnd? (s : Text) : Option Text :=
  match skipComment (skipBlanks s) with
  | [] => some []
  | b :: rest => if isBreak b then some rest else none

/-- The header of a table here, which becomes the table that is written. -/
def header? (d : Document) (s : Text) : Option (Document × Key × Text) :=
  match afterPrefix? "[[" s with
  | some s =>
    (key? (s.length + 1) s).bind fun (k, s) => (afterPrefix? "]]" s).bind fun s =>
      (d.openListed? k).map fun d => ((d.mark k false).note k, k, s)
  | none =>
    (key? (s.length + 1) (s.drop 1)).bind fun (k, s) => (afterPrefix? "]" s).bind fun s =>
      (d.openTable? k).map fun d => ((d.mark k false).note k, k, s)

/-- The document after the rest of its lines, in the table at the key `base`. -/
def lines? : (fuel : Nat) → Document → (base : Key) → Text → Option Document
  | 0, _, _, _ => none
  | fuel + 1, d, base, s =>
    match skipLines s.length s with
    | [] => some d
    | b :: tail =>
      let s := b :: tail
      if b = ascii '[' then
        (header? d s).bind fun (d, k, s) => (lineEnd? s).bind fun s => lines? fuel d k s
      else
        (pair? (s.length + 1) d base s).bind fun (d, s) =>
          (lineEnd? s).bind fun s => lines? fuel d base s

end Document

/-- The document that a text stands for, if it is well-formed. -/
def parse? (s : Text) : Option Document :=
  let s := withoutMark s
  if isReadable s then Document.lines? (s.length + 1) {} [] s else none

end DtoSchema.Toml
