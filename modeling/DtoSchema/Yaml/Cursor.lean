import DtoSchema.Text.Integer
import DtoSchema.Yaml.Character

/-!
# Places in a stream, and the scalars that start there

A cursor is a place in a stream, with its line and column.  The functions of this module read what
stands at a cursor: names, tags, and scalars in each of their styles.

A cursor knows how much of the stream has been fetched, and every function asks for as many
characters as it looks at.  Whoever asks for more than there is gets the next portion, and a cursor
that runs into a malformed portion is stuck.
-/

namespace DtoSchema.Yaml

open Text

/-- A place in a stream. -/
structure Cursor where
  /-- The characters from here on. -/
  rest : List Char
  /-- The number of characters of the stream, which bounds the number of steps from any place. -/
  size : Nat
  /-- The number of characters before. -/
  index : Nat := 0
  /-- The number of lines before. -/
  line : Nat := 0
  /-- The number of characters before on the line. -/
  column : Nat := 0
  /-- The number of characters from here on that have been fetched, the end of the stream included
  as often as it was met. -/
  ready : Nat := 0
  /-- The portions that have not been fetched. -/
  later : List Portion := []
  /-- Where a portion was last asked for, there was a mark of the order of bytes. -/
  atMark : Bool := false
  /-- A malformed portion was asked for. -/
  stuck : Bool := false

namespace Cursor

/-- The start of a stream. -/
def start (s : Text) : Cursor :=
  let (rest, later) := portions s
  { rest := rest, size := rest.length, later := later }

/-! ### Fetching -/

/-- The number of characters that are there after portions have been fetched until there are `n`,
the portions that are left, and whether none was malformed. -/
def fetch (n : Nat) : (ready : Nat) → List Portion → Nat × List Portion × Bool
  | ready, [] => (ready + 1, [], true)
  | ready, p :: ps =>
    if !p.sound then (ready, p :: ps, false)
    else if n ≤ ready + p.size then (ready + p.size, ps, true)
    else fetch n (ready + p.size) ps

/-- The cursor with `n` characters fetched. -/
def need (c : Cursor) (n : Nat) : Cursor :=
  if n ≤ c.ready then c
  else
    let (ready, later, sound) := fetch n c.ready c.later
    { c with
      ready := ready
      later := later
      atMark := c.rest.head? == some orderMark
      stuck := c.stuck || !sound }

/-! ### Moving -/

/-- The place after some characters of one line. -/
def advance (c : Cursor) (n : Nat) : Cursor :=
  { c with
    rest := c.rest.drop n
    index := c.index + n
    column := c.column + n
    ready := c.ready - n }

/-- The place after some characters of one line, where at each place on the way `ahead` characters
are fetched. -/
def pass (ahead : Nat) : Nat → Cursor → Cursor
  | 0, c => c
  | n + 1, c => pass ahead n ((c.advance 1).need ahead)

/-- The place after the characters of a class, which holds no line break. -/
def skipWhile (c : Cursor) (p : Char → Bool) : Cursor :=
  (c.need 1).pass 1 (c.rest.takeWhile p).length

/-- The place after a line break. -/
def nextLine (c : Cursor) : Cursor :=
  let c := c.need 2
  let width := match c.rest with
    | '\r' :: '\n' :: _ => 2
    | _ :: _ => 1
    | [] => 0
  if width = 0 then c else { c.advance width with line := c.line + 1, column := 0 }

/-- The place with an unfinished line counted as a line. -/
def finishLine (c : Cursor) : Cursor :=
  if c.column = 0 then c else { c with line := c.line + 1, column := 0 }

/-- What the line break here stands for in a scalar. -/
def breakText (c : Cursor) : List Char :=
  match c.rest with
  | b :: _ => if b = '\u2028' ∨ b = '\u2029' then [b] else if isBreak b then ['\n'] else []
  | [] => []

/-- The stream or the line ends here. -/
def atLineEnd (c : Cursor) : Bool := c.rest.head?.all isBreak

/-- A blank or the end of the line is here. -/
def atSpace (c : Cursor) : Bool := c.rest.head?.all fun b => isBlank b || isBreak b

/-- The given character is here. -/
def isAt (c : Cursor) (b : Char) : Bool := c.rest.head? == some b

/-- Three times the character `b` stands at the start of a line, with a blank or the end of the line
behind. -/
def atMarker (c : Cursor) (b : Char) : Bool :=
  c.column == 0 && c.rest.take 3 == [b, b, b] && (c.advance 3).atSpace

/-- The line marks the start or the end of a document. -/
def atDocumentMarker (c : Cursor) : Bool := c.atMarker '-' || c.atMarker '.'

/-- How far is looked for a comment. -/
def commentReach : Nat := 512

/-- The place after a comment at the end of the line, if there is one behind blanks. -/
def skipLineComment (c : Cursor) : Cursor :=
  let blanks := (c.rest.takeWhile isBlank).length
  let c := c.need (min blanks (commentReach - 1) + 1)
  if blanks < commentReach && (c.advance blanks).isAt '#' then
    (c.pass 1 blanks).skipWhile fun b => !isBreak b
  else c

/-! ### Names and tags -/

/-- The name of an anchor, after its mark. -/
def anchorName? (c : Cursor) : Option (Text × Cursor) :=
  let after := c.skipWhile isNameChar
  let name := ofChars (c.rest.takeWhile isNameChar)
  let ends := after.atSpace ||
    after.rest.head?.any ['?', ':', ',', ']', '\x7d', '%', '@', '\x60'].contains
  if name ≠ [] ∧ ends then some (name, after) else none

/-- The characters of a tag. -/
def isTagChar (b : Char) : Bool :=
  isNameChar b || [';', '/', '?', ':', '@', '&', '=', '+', '$', ',', '.', '!', '~', '*', '\'', '(',
    ')', '[', ']'].contains b

/-- The value of a hexadecimal digit. -/
def hexValue? (b : Char) : Option Nat :=
  if b.isDigit then some (b.toNat - '0'.toNat)
  else if 'a' ≤ b ∧ b ≤ 'f' then some (b.toNat - 'a'.toNat + 10)
  else if 'A' ≤ b ∧ b ≤ 'F' then some (b.toNat - 'A'.toNat + 10)
  else none

/-- The number that hexadecimal digits stand for. -/
def hexNumber? (digits : List Char) : Option Nat :=
  digits.foldl (fun n b => n.bind fun n => (hexValue? b).map (16 * n + ·)) (some 0)

/-- The byte that is escaped by a percent sign and two digits. -/
def escapedByte? (rest : List Char) : Option UInt8 :=
  match rest with
  | '%' :: a :: b :: _ => (hexNumber? [a, b]).map UInt8.ofNat
  | _ => none

/-- The bytes that escapes here stand for, as many as are given, each of them one that continues a
character. -/
def escapedTail? : Nat → Cursor → Option (Text × Cursor)
  | 0, c => some ([], c)
  | n + 1, c =>
    let c := c.need 3
    (escapedByte? c.rest).bind fun byte =>
      if Symbol.isTail byte then
        (escapedTail? n (c.advance 3)).map fun (bytes, c) => (byte :: bytes, c)
      else none

/-- The bytes of a character that is written by escapes here.  Whether the bytes have a meaning is
not asked. -/
def escapedChar? (c : Cursor) : Option (Text × Cursor) :=
  let c := c.need 3
  (escapedByte? c.rest).bind fun byte =>
    (octetCount? byte).bind fun width =>
      (escapedTail? (width - 1) (c.advance 3)).map fun (bytes, c) => (byte :: bytes, c.need 1)

/-- `tagText?` after the first character has been fetched. -/
def tagTextFrom? : (fuel : Nat) → Cursor → Option (Text × Cursor)
  | 0, c => some ([], c)
  | fuel + 1, c =>
    match c.rest.head? with
    | none => some ([], c)
    | some b =>
      if b = '%' then
        c.escapedChar?.bind fun (bytes, c) =>
          (tagTextFrom? fuel c).map fun (more, c) => (bytes ++ more, c)
      else if isTagChar b then
        (tagTextFrom? fuel ((c.advance 1).need 1)).map fun (more, c) =>
          (String.utf8EncodeChar b ++ more, c)
      else some ([], c)

/-- The tag characters here, with their escapes resolved. -/
def tagText? (c : Cursor) : Option (Text × Cursor) := tagTextFrom? (c.size + 1) (c.need 1)

/-- A tag handle: an exclamation mark, a name, and possibly another mark. -/
def tagHandle (c : Cursor) : Text × Cursor :=
  let after := ((c.need 1).advance 1).skipWhile isNameChar
  let after := if after.isAt '!' then after.advance 1 else after
  (ofChars (c.rest.take (after.index - c.index)), after)

/-- The tag here, as its handle and what follows the handle.  A tag in angle brackets has no handle,
and neither has the mark alone. -/
def tag? (c : Cursor) : Option ((Text × Text) × Cursor) :=
  let c := c.need 2
  (match c.rest with
    | '!' :: '<' :: _ =>
      (tagText? (c.advance 2)).bind fun (suffix, after) =>
        if suffix ≠ [] ∧ after.isAt '>' then some ((([] : Text), suffix), after.advance 1) else none
    | _ =>
      let (handle, after) := c.tagHandle
      if 1 < handle.length ∧ handle.getLast? = some (ascii '!') then
        (tagText? after).bind fun (suffix, after) =>
          if suffix = [] then none else some ((handle, suffix), after)
      else
        (tagText? after).map fun (suffix, after) =>
          let suffix := handle.tail ++ suffix
          if suffix = [] then ((([] : Text), utf8 "!"), after)
          else ((utf8 "!", suffix), after)).bind
    fun (tag, after) =>
      let after := after.need 1
      if after.atSpace then some (tag, after) else none

/-! ### Directives -/

/-- A directive. -/
inductive Directive where
  /-- The version of the language. -/
  | version (major minor : Nat)
  /-- A handle for tags. -/
  | tagHandle (handle expansion : Text)

/-- The part of a version number here, one digit or two. -/
def versionNumber? (c : Cursor) : Option (Nat × Cursor) :=
  let digits := c.rest.takeWhile Char.isDigit
  if digits ≠ [] ∧ digits.length ≤ 2 then
    some (digitsValue (ofChars digits), c.skipWhile Char.isDigit)
  else none

/-- The version here, behind the name of the directive. -/
def version? (c : Cursor) : Option (Directive × Cursor) :=
  (c.skipWhile isBlank).versionNumber?.bind fun (major, c) =>
    if c.isAt '.' then
      (c.advance 1).versionNumber?.map fun (minor, c) => (.version major minor, c)
    else none

/-- The handle for tags here, with what it stands for, behind the name of the directive. -/
def handleExpansion? (c : Cursor) : Option (Directive × Cursor) :=
  let c := c.skipWhile isBlank
  if c.isAt '!' then
    let (handle, c) := c.tagHandle
    let c := c.need 1
    if (handle = "!" ∨ handle.getLast? = some (ascii '!')) ∧ c.rest.head?.any isBlank then
      (c.skipWhile isBlank).tagText?.bind fun (expansion, c) =>
        let c := c.need 1
        if expansion ≠ [] ∧ c.atSpace then some (.tagHandle handle expansion, c) else none
    else none
  else none

/-- The directive here, after its mark, and the start of the next line. -/
def directive? (c : Cursor) : Option (Directive × Cursor) :=
  let name := c.rest.takeWhile isNameChar
  let c := c.skipWhile isNameChar
  let found :=
    if !c.atSpace then none
    else if name = ['Y', 'A', 'M', 'L'] then c.version?
    else if name = ['T', 'A', 'G'] then c.handleExpansion?
    else none
  found.bind fun (d, c) =>
    let c := c.skipWhile isBlank
    let c := if c.isAt '#' then c.skipWhile fun b => !isBreak b else c
    if c.atLineEnd then some (d, c.nextLine) else none

/-! ### White space in scalars -/

/-- The blanks and line breaks inside of a scalar. -/
structure Gap where
  /-- The blanks on the first line. -/
  blanks : List Char := []
  /-- The line breaks. -/
  breaks : List Char := []

/-- What a gap stands for: a single line break for a space, and more of them for all but the
first. -/
def Gap.folded (g : Gap) : List Char :=
  match g.breaks with
  | [] => g.blanks
  | b :: bs => if b = '\n' then if bs.isEmpty then [' '] else bs else b :: bs

/-- The gap here.  A tab may not stand on a further line before the column `indent`. -/
def gap? (indent : Nat) : (fuel : Nat) → Gap → Cursor → Option (Gap × Cursor)
  | 0, g, c => some (g, c)
  | fuel + 1, g, c =>
    match c.rest with
    | [] => some (g, c)
    | b :: _ =>
      if isBlank b then
        let next := (c.advance 1).need 1
        if g.breaks.isEmpty then gap? indent fuel { g with blanks := g.blanks ++ [b] } next
        else if b = '\t' ∧ c.column < indent then none
        else gap? indent fuel g next
      else if isBreak b then
        gap? indent fuel { g with breaks := g.breaks ++ c.breakText } (c.nextLine.need 1)
      else some (g, c)

/-! ### Plain scalars -/

/-- A plain scalar ends at this character: at the mark of a value, or inside of brackets at one of
their indicators. -/
def endsPlain (inFlow : Bool) : List Char → Bool
  | [] => true
  | b :: rest =>
    isBlank b || isBreak b ||
      (b == ':' && rest.head?.all fun d => isBlank d || isBreak d) ||
      (inFlow && [',', '?', '[', ']', '\x7b', '\x7d'].contains b)

/-- The word of a plain scalar here. -/
def plainWord (inFlow : Bool) : List Char → List Char
  | [] => []
  | b :: rest => if endsPlain inFlow (b :: rest) then [] else b :: plainWord inFlow rest

/-- The words of a plain scalar here, where `indent` is the least column of its further lines.  The
last part of the answer says that a line break follows the scalar. -/
def plainWords? (inFlow : Bool) (indent : Nat) :
    (fuel : Nat) → Gap → Cursor → Option (List Char × Cursor × Bool)
  | 0, _, _ => none
  | fuel + 1, g, c =>
    let c := c.need 4
    if c.atDocumentMarker || c.isAt '#' then some ([], c, !g.breaks.isEmpty)
    else
      let word := plainWord inFlow c.rest
      let after := c.pass 2 word.length
      let text := if word.isEmpty then [] else g.folded ++ word
      if word.isEmpty || !after.rest.head?.any (fun b => isBlank b || isBreak b) then
        some (text, after, word.isEmpty && !g.breaks.isEmpty)
      else
        (gap? indent (after.size + 1) {} (after.need 1)).bind fun (next, after) =>
          if !inFlow && after.column < indent then some (text, after, !next.breaks.isEmpty)
          else
            (plainWords? inFlow indent fuel next after).map fun (more, rest) => (text ++ more, rest)

/-! ### Quoted scalars -/

/-- The character that a letter stands for behind a backslash. -/
def simpleEscape? (b : Char) : Option Char :=
  [('0', '\x00'), ('a', '\x07'), ('b', '\x08'), ('t', '\t'), ('\t', '\t'), ('n', '\n'),
    ('v', '\x0b'), ('f', '\x0c'), ('r', '\r'), ('e', '\x1b'), (' ', ' '), ('"', '"'), ('\'', '\''),
    ('\\', '\\'), ('N', '\u0085'), ('_', '\u00a0'), ('L', '\u2028'), ('P', '\u2029')].lookup b

/-- The number of digits of a numeric escape. -/
def escapeWidth? (b : Char) : Option Nat := [('x', 2), ('u', 4), ('U', 8)].lookup b

/-- The character of an escape, whose letter starts `rest`, and the number of its characters. -/
def escape? (rest : List Char) : Option (Char × Nat) :=
  match rest with
  | [] => none
  | b :: rest =>
    match simpleEscape? b with
    | some d => some (d, 1)
    | none =>
      (escapeWidth? b).bind fun width =>
        let digits := rest.take width
        if digits.length < width then none
        else (hexNumber? digits).bind fun n =>
          if n.isValidChar then some (Char.ofNat n, width + 1) else none

/-- What follows the opening quote of a quoted scalar, up to its closing quote.  At the start and
after white space, where `fresh` holds, there may be no mark of a document. -/
def quoted? (double : Bool) : (fuel : Nat) → (fresh : Bool) → Cursor → Option (List Char × Cursor)
  | 0, _, _ => none
  | fuel + 1, fresh, c =>
    let c := if fresh then c.need 4 else c
    let putBefore (text : List Char) (found : List Char × Cursor) := (text ++ found.1, found.2)
    if fresh && c.atDocumentMarker then none
    else match c.rest with
      | [] => none
      | b :: rest =>
        if isBlank b || isBreak b then
          (gap? 0 (c.size + 1) {} (c.need 1)).bind fun (g, after) =>
            (quoted? double fuel true after).map (putBefore g.folded)
        else if double then
          if b = '"' then some ([], (c.need 1).advance 1)
          else if b = '\\' then
            if rest.head?.any isBreak then
              let next := ((c.need 3).advance 1).nextLine.need 1
              (gap? 0 (c.size + 1) { breaks := ['\n'] } next).bind fun (g, after) =>
                (quoted? double fuel true after).map (putBefore g.breaks.tail)
            else
              (escape? rest).bind fun (d, width) =>
                let after := ((c.advance 2).need (width - 1)).advance (width - 1)
                (quoted? double fuel false (after.need 2)).map (putBefore [d])
          else (quoted? double fuel false ((c.advance 1).need 2)).map (putBefore [b])
        else if b = '\'' then
          if rest.head? = some '\'' then
            (quoted? double fuel false ((c.advance 2).need 2)).map (putBefore [b])
          else some ([], (c.need 1).advance 1)
        else (quoted? double fuel false ((c.advance 1).need 2)).map (putBefore [b])

/-! ### Block scalars -/

/-- What becomes of the line breaks at the end of a block. -/
inductive Chomping where
  /-- All of them are taken away. -/
  | strip
  /-- One is kept. -/
  | clip
  /-- All of them are kept. -/
  | keep
  deriving DecidableEq

/-- The chomping that is marked here. -/
def chomping? (c : Cursor) : Option (Chomping × Cursor) :=
  let c := c.need 1
  if c.isAt '+' then some (.keep, c.advance 1)
  else if c.isAt '-' then some (.strip, c.advance 1)
  else none

/-- The indentation that is marked here by a digit. -/
def indentDigit? (c : Cursor) : Option (Nat × Cursor) :=
  let c := c.need 1
  c.rest.head?.bind fun b =>
    if b.isDigit then some (b.toNat - '0'.toNat, c.advance 1) else none

/-- The marks behind the indicator of a block, in either order, where no digit is given as
`none`. -/
def blockMarks (c : Cursor) : Chomping × Option Nat × Cursor :=
  match c.chomping? with
  | some (chomping, c) =>
    match c.indentDigit? with
    | some (n, c) => (chomping, some n, c)
    | none => (chomping, none, c)
  | none =>
    match c.indentDigit? with
    | some (n, c) =>
      match c.chomping? with
      | some (chomping, c) => (chomping, some n, c)
      | none => (.clip, some n, c)
    | none => (.clip, none, c)

/-- The spaces and empty lines before a line of a block.  An indentation of zero stands for one that
is not known yet; the answer holds the greatest column that was reached. -/
def blockBreaks? (indent : Nat) :
    (fuel : Nat) → (reached : Nat) → (breaks : List Char) → Cursor →
    Option (Nat × List Char × Cursor)
  | 0, _, _, _ => none
  | fuel + 1, reached, breaks, c =>
    let spaces := (c.rest.takeWhile (· == ' ')).length
    let c := (c.need 1).pass 1 (if indent = 0 then spaces else min spaces (indent - c.column))
    let reached := max reached c.column
    if (indent == 0 || c.column < indent) && c.isAt '\t' then none
    else if c.rest.head?.any isBreak then
      blockBreaks? indent fuel reached (breaks ++ c.breakText) c.nextLine
    else some (reached, breaks, c)

/-- What has been read of a block. -/
structure BlockText where
  /-- The parts of the text of the lines, the last one first. -/
  parts : List (List Char) := []
  /-- The line break of the last line. -/
  last : List Char := []
  /-- The line breaks of the empty lines after it. -/
  empty : List Char := []
  /-- The last line starts with a blank. -/
  indented : Bool := false

/-- The lines of a block that is indented by `indent`. -/
def blockLines? (literal : Bool) (indent : Nat) :
    (fuel : Nat) → BlockText → Cursor → Option (BlockText × Cursor)
  | 0, _, _ => none
  | fuel + 1, t, c =>
    if c.column = indent && !c.rest.isEmpty then
      let blank := c.rest.head?.any isBlank
      let joint :=
        if !literal && !t.indented && !blank && t.last.head? == some '\n' then
          if t.empty.isEmpty then [' '] else []
        else t.last
      let line := c.rest.takeWhile fun b => !isBreak b
      let c := c.pass 1 line.length
      (blockBreaks? indent (c.size + 2) 0 [] c.nextLine).bind fun (_, empty, after) =>
        blockLines? literal indent fuel
          ⟨(joint ++ t.empty ++ line) :: t.parts, c.breakText, empty, blank⟩ after
    else some (t, c)

/-- The block scalar here, behind its indicator, where `parent` is the indentation of what it
belongs to and is negative outside of everything. -/
def block? (literal : Bool) (parent : Int) (c : Cursor) : Option (List Char × Cursor) :=
  let (chomping, digit, c) := c.blockMarks
  let c := c.skipWhile isBlank
  let c := if c.isAt '#' then c.skipWhile fun b => !isBreak b else c
  if digit = some 0 ∨ !c.atLineEnd then none
  else
    let c := c.nextLine
    let given := match digit with
      | some n => (max parent 0).toNat + n
      | none => 0
    (blockBreaks? given (c.size + 2) 0 [] c).bind fun (reached, empty, c) =>
      let indent := if given = 0 then max (max reached (parent + 1).toNat) 1 else given
      (blockLines? literal indent (c.size + 2) { empty := empty } c).map fun (t, c) =>
        (t.parts.reverse.flatten ++ (if chomping = .strip then [] else t.last) ++
          (if chomping = .keep then t.empty else []), c)

end Cursor

end DtoSchema.Yaml
