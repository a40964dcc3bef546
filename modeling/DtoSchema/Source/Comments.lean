import DtoSchema.Source.Nesting

/-!
# Comments and header lines

A source is brought into one shape before declarations are looked for: its comments go, line ends
become line feeds, and an import or package line that no semicolon ends gets one.

Comments are recognised while the text is read as a sequence of literals, comments and other bytes.
Unlike elsewhere, a literal also ends at a line feed here, so a stray quote hides the comments of
one line at most.
-/

namespace DtoSchema.Source

open Text

/-- What a text is being read as when comments are looked for. -/
inductive Reading where
  /-- Code outside of literals and comments. -/
  | code
  /-- A literal that `quote` closes. -/
  | literal (quote : UInt8)
  /-- Such a literal, right after a backslash. -/
  | escape (quote : UInt8)
  /-- A comment that reaches to the end of the line. -/
  | lineComment
  /-- A comment that `*/` closes. -/
  | blockComment
  deriving DecidableEq, Repr

/-- The text without its comments, given what it starts inside of.  The line feed after a line
comment stays. -/
def stripFrom : Reading → Text → Text
  | _, [] => []
  | .code, b :: s =>
    if isQuote b then b :: stripFrom (.literal b) s
    else if b = ascii '/' then
      match s with
      | [] => [b]
      | c :: s' =>
        if c = ascii '/' then stripFrom .lineComment s'
        else if c = ascii '*' then stripFrom .blockComment s'
        else b :: stripFrom .code (c :: s')
    else b :: stripFrom .code s
  | .literal q, b :: s =>
    if b = ascii '\\' then b :: stripFrom (.escape q) s
    else if b = q ∨ b = ascii '\n' then b :: stripFrom .code s
    else b :: stripFrom (.literal q) s
  | .escape q, b :: s => b :: stripFrom (.literal q) s
  | .lineComment, b :: s =>
    if b = ascii '\n' then b :: stripFrom .code s else stripFrom .lineComment s
  | .blockComment, b :: s =>
    match s with
    | [] => []
    | c :: s' =>
      if b = ascii '*' ∧ c = ascii '/' then stripFrom .code s'
      else stripFrom .blockComment (c :: s')

/-- The text without its comments.  Comment marks inside literals are part of the literal. -/
def stripComments (s : Text) : Text := stripFrom .code s

/-- The blanks that may stand around the words of a header line. -/
def isBlank (b : UInt8) : Bool := b == ascii ' ' || b == ascii '\t'

/-- The line after its leading blanks and one of the words `import` and `package`. -/
def afterHeaderWord? (line : Text) : Option Text :=
  let s := line.dropWhile isBlank
  (afterPrefix? "import" s).or (afterPrefix? "package" s)

/-- The line is an import or package line that holds no semicolon: the word is followed by a blank,
and what comes then does not end in a gap other than a blank. -/
def isOpenHeader (line : Text) : Bool :=
  match afterHeaderWord? line with
  | none => false
  | some rest =>
    rest.head?.any isBlank && ascii ';' ∉ rest &&
      (dropWhileEnd isBlank rest).getLast?.any (!isGap ·)

/-- The line, with a semicolon for its trailing blanks if it is an import or package line without
one. -/
def closeHeader (line : Text) : Text :=
  if isOpenHeader line then dropWhileEnd isBlank line ++ ";" else line

/-- The text with line feeds as its line ends, and every import and package line ended by a
semicolon. -/
def closeHeaders (s : Text) : Text :=
  join "\n" ((pieces (ascii '\n') (replaceAll "\r\n" "\n" s)).map closeHeader)

/-- The text in the shape in which declarations are looked for. -/
def normalize (s : Text) : Text := closeHeaders (stripComments s)

end DtoSchema.Source
