import DtoSchema.Document.Basic
import DtoSchema.Text.Base64
import DtoSchema.Text.Quoted
import DtoSchema.Yaml.Character
import DtoSchema.Yaml.Scalar

/-!
# Documents in YAML

Lists and records are written in lines, two spaces for each level.  A text is written in the
plainest of four styles in which it can be read back: bare, between single quotes, between double
quotes, or as a block of lines.
-/

namespace DtoSchema.Document

open Text Yaml

/-! ### Characters -/

/-- The characters that need no escape: up to the end of the basic plane, without controls, the byte
order mark and what is no character. -/
def isLegible (c : Char) : Bool :=
  c == '\n' || (' ' ≤ c && c ≤ '~') ||
    ('\u00a0' ≤ c && c ≤ '\ufffd' && c != '\ufeff')

/-- The characters that have a meaning at the start of a text, whatever follows. -/
def isIndicator (c : Char) : Bool :=
  ['#', ',', '[', ']', '\x7b', '\x7d', '&', '*', '!', '|', '>', '\'', '"', '%', '@', '`'].contains c

/-! ### Styles -/

/-- The neighbours in a list. -/
def neighbours (cs : List Char) : List (Char × Char) := cs.zip cs.tail

/-- The text starts with something that has a meaning of its own. -/
def startsSpecial : List Char → Bool
  | '-' :: '-' :: '-' :: _ => true
  | '.' :: '.' :: '.' :: _ => true
  | c :: cs =>
    isIndicator c ||
      ((c == '?' || c == ':' || c == '-') && (cs.head?.map isBlank).getD true)
  | [] => false

/-- There is a mark of a value or of a comment inside of the text. -/
def hasInnerMark (cs : List Char) : Bool :=
  cs.getLast? == some ':' ||
    (neighbours cs).any fun (a, b) =>
      (a == ':' && isBlank b) || (b == '#' && (isBlank a || isBreak a || a == '\x00'))

/-- A character of the first class comes before one of the second. -/
def hasAdjacent (first second : Char → Bool) (cs : List Char) : Bool :=
  (neighbours cs).any fun (a, b) => first a && second b

/-- There is a character that needs an escape. -/
def needsEscape (cs : List Char) : Bool := cs.any fun c => c != '\t' && !isLegible c

/-- The text can be written bare, as far as its characters go. -/
def fitsBare (cs : List Char) : Bool :=
  !(cs.head?.any (fun c => c == ' ' || isBreak c) || cs.getLast?.any (· == ' ') ||
    cs.any (fun c => isBreak c || c == '\t') || needsEscape cs || startsSpecial cs ||
    hasInnerMark cs)

/-- The text can be written between single quotes. -/
def fitsSingle (cs : List Char) : Bool :=
  !(hasAdjacent isBreak (· == ' ') cs || hasAdjacent (· == ' ') isBreak cs ||
    cs.contains '\t' || needsEscape cs)

/-- The text can be written as a block of lines. -/
def fitsBlock (cs : List Char) : Bool :=
  !(cs.isEmpty || cs.getLast?.any (· == ' ') || hasAdjacent (· == ' ') isBreak cs || needsEscape cs)

/-- The ways to write a text. -/
inductive Style where
  /-- As it is. -/
  | bare
  /-- Between single quotes, which are doubled inside. -/
  | single
  /-- Between double quotes, with escapes. -/
  | double
  /-- As a block of lines. -/
  | block
  deriving DecidableEq, Repr

/-- The text means itself when it is written bare. -/
def meansItself (s : Text) : Bool :=
  Scalar.resolve s == .text && !isSexagesimal s && !oldTruthWords.contains s

/-- The style of a text. -/
def style (s : Text) : Style :=
  let cs := chars s
  if cs.contains '\n' then if fitsBlock cs then .block else .double
  else if !meansItself s then .double
  else if fitsBare cs then .bare
  else if fitsSingle cs then .single
  else .double

/-! ### Written forms -/

/-- A hexadecimal digit with a capital letter. -/
def capital (b : UInt8) : UInt8 := if isLetter b then b - 32 else b

/-- The escape of a character between double quotes. -/
def escaped (c : Char) : Text :=
  match c with
  | '"' => "\\\""
  | '\\' => "\\\\"
  | '\x00' => "\\0"
  | '\x07' => "\\a"
  | '\x08' => "\\b"
  | '\t' => "\\t"
  | '\n' => "\\n"
  | '\x0b' => "\\v"
  | '\x0c' => "\\f"
  | '\r' => "\\r"
  | '\x1b' => "\\e"
  | '\u0085' => "\\N"
  | '\u00a0' => "\\_"
  | '\u2028' => "\\L"
  | '\u2029' => "\\P"
  | c =>
    if c.toNat ≤ 0xff then "\\x" ++ (hexDigits 2 c.toNat).map capital
    else if c.toNat ≤ 0xffff then "\\u" ++ (hexDigits 4 c.toNat).map capital
    else "\\U" ++ (hexDigits 8 c.toNat).map capital

/-- A character as it stands between double quotes, where `all` says that everything is escaped. -/
def doubleChar (all : Bool) (c : Char) : Text :=
  if all || !isLegible c || isBreak c || c == '"' || c == '\\' then escaped c
  else String.utf8EncodeChar c

/-- A text between double quotes.  In a text that starts with a mark of the order of bytes every
character is escaped. -/
def doubleText (cs : List Char) : Text :=
  "\"" ++ cs.flatMap (doubleChar (cs.head? == some orderMark)) ++ "\"\n"

/-- The lines of a text, where each line that is not empty starts with `margin`; `fresh` says that a
line starts here. -/
def withMargin (margin : Text) (encode : Char → Text) : (fresh : Bool) → List Char → Text
  | _, [] => []
  | fresh, c :: cs =>
    if isBreak c then String.utf8EncodeChar c ++ withMargin margin encode true cs
    else onlyIf fresh margin ++ encode c ++ withMargin margin encode false cs

/-- What is written behind the mark of a block: that its first line is indented or empty, and what
becomes of the line breaks at its end. -/
def blockHints (cs : List Char) : Text :=
  onlyIf (cs.head?.any fun c => c == ' ' || isBreak c) "2" ++
    match cs.reverse with
    | [] => "-"
    | [c] => if isBreak c then "+" else "-"
    | c :: d :: _ => if !isBreak c then "-" else if isBreak d then "+" else []

/-- The lines of a block.  A line break at the start of the text takes the place of the one behind
the mark of the block. -/
def blockText (margin : Text) (cs : List Char) : Text :=
  "|" ++ blockHints cs ++ onlyIf (!cs.head?.any isBreak) "\n" ++
    withMargin margin String.utf8EncodeChar true cs ++ onlyIf (!cs.getLast?.any isBreak) "\n"

/-- The number of digits in base 64 in a line. -/
def digitsInLine : Nat := 70

/-- Bytes that are no text, in base 64: in the same line, or in lines of their own if they are
many. -/
def binaryText (margin s : Text) : Text :=
  let digits := toBase64 s
  if digits.length < digitsInLine then digits ++ "\n"
  else
    let count := (digits.length + digitsInLine - 1) / digitsInLine
    let line (i : Nat) : Text :=
      margin ++ (digits.drop (i * digitsInLine)).take digitsInLine ++ "\n"
    "|\n" ++ (List.range count).flatMap line

/-- A text at the end of a line, where `indent` is the indentation of further lines. -/
def yamlText (indent : Nat) (s : Text) : Text :=
  let cs := chars s
  let margin := spaces indent
  if !isValid s then "!!binary " ++ binaryText margin s
  else match style s with
    | .bare => s ++ "\n"
    | .single =>
      let singleChar (c : Char) : Text := if c = '\'' then "''" else String.utf8EncodeChar c
      "'" ++ withMargin margin singleChar false cs ++ "'\n"
    | .double => doubleText cs
    | .block => blockText margin cs

mutual

/-- The lines of a document.  The first line starts where its place is, and the others are indented
by `indent`. -/
def yamlAt (indent : Nat) : Document → Text
  | .text s => yamlText indent s
  | .list [] => "[]\n"
  | .list items => join (spaces indent) (yamlItems indent items)
  | .record [] => "\x7b\x7d\n"
  | .record entries => join (spaces indent) (yamlEntries indent entries)

/-- The lines of the items of a list. -/
def yamlItems (indent : Nat) : List Document → List Text
  | [] => []
  | item :: items => ("- " ++ yamlAt (indent + 2) item) :: yamlItems indent items

/-- The lines of the entries of a record. -/
def yamlEntries (indent : Nat) : List (Text × Document) → List Text
  | [] => []
  | (name, value) :: entries =>
    (name ++ ":" ++ (if value.isBlock then "\n" ++ spaces (indent + 2) else utf8 " ") ++
      yamlAt (indent + 2) value) :: yamlEntries indent entries

end

/-- The written form of a document in YAML. -/
def yaml (d : Document) : Text := yamlAt 0 d

end DtoSchema.Document
