import DtoSchema.Yaml.Cursor

/-!
# Tokens of a stream

A stream is read token by token.  Indentation is turned into tokens for the start and the end of a
block.  A key that is not marked as one is only known as such when its value is met, so that the
tokens for it are put in later, in front of what has been read since.  For this, the scanner
remembers where a key may have started, for each level of brackets one place, and it hands out a
token only if no such place is in front of it.
-/

namespace DtoSchema.Yaml

open Text

/-- A token. -/
inductive Token where
  /-- A directive. -/
  | directive (d : Cursor.Directive)
  /-- The mark of the start of a document. -/
  | documentStart
  /-- The mark of the end of a document. -/
  | documentEnd
  /-- A sequence in lines starts. -/
  | blockSequence
  /-- A mapping in lines starts. -/
  | blockMapping
  /-- A sequence or mapping in lines ends. -/
  | blockEnd
  /-- A sequence in brackets starts. -/
  | flowSequence
  /-- A sequence in brackets ends. -/
  | flowSequenceEnd
  /-- A mapping in braces starts. -/
  | flowMapping
  /-- A mapping in braces ends. -/
  | flowMappingEnd
  /-- The mark of an item of a sequence in lines. -/
  | blockEntry
  /-- The comma in brackets. -/
  | flowEntry
  /-- A key follows. -/
  | key
  /-- A value follows. -/
  | value
  /-- A node stands again for the one with this name. -/
  | alias (name : Text)
  /-- The name of the node that follows. -/
  | anchor (name : Text)
  /-- The tag of the node that follows. -/
  | tag (handle suffix : Text)
  /-- A scalar, written without quotes or not. -/
  | scalar (plain : Bool) (value : Text)
  /-- The stream ends. -/
  | streamEnd

/-- A place where a key without a mark may have started. -/
structure PossibleKey where
  /-- The number of tokens before it. -/
  number : Nat
  /-- Where it starts. -/
  start : Cursor
  /-- There has to be a key. -/
  required : Bool

/-- What has been read of a stream. -/
structure Scanner where
  /-- The place up to which the stream has been read. -/
  cursor : Cursor
  /-- The tokens that were read and not yet handed out. -/
  queue : List Token := []
  /-- The number of tokens that were handed out. -/
  taken : Nat := 0
  /-- The next token is known to be the first one of the queue. -/
  settled : Bool := false
  /-- The column of the innermost block, negative outside of all blocks. -/
  indent : Int := -1
  /-- The columns of the blocks around it. -/
  outer : List Int := []
  /-- A key without a mark may start here. -/
  keyAllowed : Bool := true
  /-- Where a key may have started, for each level of brackets, the innermost first. -/
  keys : List (Option PossibleKey) := [none]

namespace Scanner

/-- The place is inside of brackets. -/
def inFlow (s : Scanner) : Bool := !s.keys.tail.isEmpty

/-- The scanner with a token at the end of its queue. -/
def push (s : Scanner) (t : Token) : Scanner := { s with queue := s.queue ++ [t] }

/-- The scanner with a token put in front of the token of the given number. -/
def insertAt (s : Scanner) (number : Nat) (t : Token) : Scanner :=
  let n := number - s.taken
  { s with queue := s.queue.take n ++ t :: s.queue.drop n }

/-- The scanner at another place. -/
def moveTo (s : Scanner) (c : Cursor) : Scanner := { s with cursor := c }

/-- The scanner with a token of some characters on one line behind it. -/
def pushAdvance (s : Scanner) (t : Token) (width : Nat) : Scanner :=
  (s.push t).moveTo (s.cursor.advance width)

/-! ### Keys -/

/-- The scanner without a possible key at the current level, unless there has to be one. -/
def dropKey? (s : Scanner) : Option Scanner :=
  match s.keys with
  | some k :: keys => if k.required then none else some { s with keys := none :: keys }
  | _ => some s

/-- The scanner that remembers that a key may start here, if it may. -/
def saveKey? (s : Scanner) : Option Scanner :=
  if s.keyAllowed then
    let key : PossibleKey :=
      ⟨s.taken + s.queue.length, s.cursor, !s.inFlow && s.indent == s.cursor.column⟩
    s.dropKey?.map fun s => { s with keys := some key :: s.keys.tail }
  else some s

/-- The possible key has been left: a key without a mark stands on one line, with at most 1024
characters up to its value. -/
def hasLeft (s : Scanner) (k : PossibleKey) : Bool :=
  k.start.line < s.cursor.line || k.start.index + 1024 < s.cursor.index

/-- The keys of all levels without the one of the given number. -/
def forget (keys : List (Option PossibleKey)) (number : Nat) : List (Option PossibleKey) :=
  keys.map fun k => k.filter (·.number != number)

/-! ### Blocks -/

/-- How deep blocks may be nested, and how deep brackets may be. -/
def depthLimit : Nat := 10000

/-- The scanner inside of a block at a column, with the token for its start put at its place if the
block is new. -/
def openBlock? (s : Scanner) (column number : Nat) (t : Token) : Option Scanner :=
  if !s.inFlow && s.indent < column then
    if s.outer.length < depthLimit then
      some { s.insertAt number t with indent := column, outer := s.indent :: s.outer }
    else none
  else some s

/-- `closeBlocks` for the columns of the blocks around the innermost one. -/
def closeFrom (column : Int) : List Int → Scanner → Scanner
  | [], s => s
  | i :: outer, s =>
    if column < s.indent then
      closeFrom column outer { s.push .blockEnd with indent := i, outer := outer }
    else s

/-- The scanner with all blocks closed that lie deeper than a column. -/
def closeBlocks (s : Scanner) (column : Int) : Scanner :=
  if s.inFlow then s else closeFrom column s.outer s

/-! ### White space -/

/-- The blanks and the line breaks of one byte, behind which further comments are looked for. -/
def isNarrowSpace (b : Char) : Bool := isBlank b || b == '\r' || b == '\n'

/-- The place after comments, which may stand on several lines with empty lines in between. -/
def skipComments : (fuel : Nat) → Cursor → Cursor
  | 0, c => c
  | fuel + 1, c =>
    let c := c.skipWhile fun b => !isBreak b
    let space := (c.rest.takeWhile isNarrowSpace).length
    let c := c.need (min (max space 1) (Cursor.commentReach - 1) + 1)
    if space < Cursor.commentReach && (c.rest.drop space).head? == some '#' then
      match Cursor.gap? 0 (c.size + 1) {} c with
      | some (_, next) => skipComments fuel next
      | none => c
    else c

/-- The scanner at the next token.  Tabs do not count as indentation.  Where there was a mark of the
order of bytes when the stream was last fetched, every line loses its first character. -/
def skipSpace : (fuel : Nat) → Scanner → Scanner
  | 0, s => s
  | fuel + 1, s =>
    let c := s.cursor.need 1
    let c := if c.column = 0 && c.atMark then c.advance 1 else c
    let c := c.skipWhile fun b => b == ' ' || ((s.inFlow || !s.keyAllowed) && b == '\t')
    let c := if c.isAt '#' then skipComments c.size c else c
    if c.rest.head?.any isBreak then
      skipSpace fuel { s with cursor := c.nextLine, keyAllowed := s.keyAllowed || !s.inFlow }
    else s.moveTo c

/-! ### Reading tokens -/

/-- The mark of a directive, or of the start or the end of a document, ends all blocks. -/
def endDocument? (s : Scanner) : Option Scanner :=
  (s.closeBlocks (-1)).dropKey?.map fun s => { s with keyAllowed := false }

/-- The scanner after an opening bracket. -/
def openFlow? (s : Scanner) (t : Token) : Option Scanner :=
  s.saveKey?.bind fun s =>
    if s.keys.length ≤ depthLimit then
      some { s.pushAdvance t 1 with keys := none :: s.keys, keyAllowed := true }
    else none

/-- The scanner after a closing bracket. -/
def closeFlow? (s : Scanner) (t : Token) : Option Scanner :=
  s.dropKey?.map fun s =>
    { s.pushAdvance t 1 with
      keys := if s.inFlow then s.keys.tail else s.keys
      keyAllowed := false }

/-- The scanner after the comma in brackets. -/
def afterComma? (s : Scanner) : Option Scanner :=
  s.dropKey?.map fun s => { s.pushAdvance .flowEntry 1 with keyAllowed := true }

/-- The scanner inside of a block that starts with a mark here. -/
def markedBlock? (s : Scanner) (t : Token) : Option Scanner :=
  if s.inFlow then some s
  else if s.keyAllowed then s.openBlock? s.cursor.column (s.taken + s.queue.length) t
  else none

/-- The scanner after the mark of an item. -/
def afterDash? (s : Scanner) : Option Scanner :=
  (s.markedBlock? .blockSequence).bind fun s =>
    s.dropKey?.map fun s => { s.pushAdvance .blockEntry 1 with keyAllowed := true }

/-- The scanner after the mark of a key. -/
def key? (s : Scanner) : Option Scanner :=
  (s.markedBlock? .blockMapping).bind fun s =>
    s.dropKey?.map fun s => { s.pushAdvance .key 1 with keyAllowed := !s.inFlow }

/-- The scanner after the mark of a value that belongs to a key with a mark or to none. -/
def markedValue? (s : Scanner) : Option Scanner :=
  (s.markedBlock? .blockMapping).map fun s =>
    { s.pushAdvance .value 1 with keyAllowed := !s.inFlow }

/-- The scanner after the mark of a value. -/
def value? (s : Scanner) : Option Scanner :=
  match s.keys with
  | some k :: keys =>
    if s.hasLeft k then
      if k.required then none else { s with keys := none :: keys }.markedValue?
    else
      ((s.insertAt k.number .key).openBlock? k.start.column k.number .blockMapping).map fun s =>
        { s.pushAdvance .value 1 with keys := none :: keys, keyAllowed := false }
  | _ => s.markedValue?

/-- The scanner after an alias, an anchor or a tag, or after a quoted scalar: such a token may start
a key, and no key may follow it. -/
def property? (s : Scanner) (t : Token) (c : Cursor) : Option Scanner :=
  s.saveKey?.map fun s => { (s.push t).moveTo c with keyAllowed := false }

/-- The scanner after a block scalar. -/
def blockScalar? (s : Scanner) (literal : Bool) : Option Scanner :=
  s.dropKey?.bind fun s =>
    ((s.cursor.advance 1).block? literal s.indent).map fun (text, c) =>
      { (s.push (.scalar false (ofChars text))).moveTo c with keyAllowed := true }

/-- The scanner after a quoted scalar. -/
def quotedScalar? (s : Scanner) (double : Bool) : Option Scanner :=
  ((s.cursor.advance 1).quoted? double (s.cursor.size + 1) true).bind fun (text, c) =>
    s.property? (.scalar false (ofChars text)) c

/-- The scanner after a plain scalar. -/
def plainScalar? (s : Scanner) : Option Scanner :=
  (s.cursor.plainWords? s.inFlow (s.indent + 1).toNat (s.cursor.size + 1) {}).bind
    fun (text, c, broken) =>
      (s.property? (.scalar true (ofChars text)) c).map fun s => { s with keyAllowed := broken }

/-- The characters that cannot start a plain scalar. -/
def isReserved (b : Char) : Bool :=
  ['-', '?', ':', ',', '[', ']', '\x7b', '\x7d', '#', '&', '*', '!', '|', '>', '\'', '"', '%', '@',
    '`', '\t'].contains b

/-- The scanner after the token that starts with the character `b`. -/
def readFrom? (s : Scanner) (b : Char) : Option Scanner :=
  let c := s.cursor
  let spaced := (c.advance 1).atSpace
  if b = '[' then s.openFlow? .flowSequence
  else if b = '\x7b' then s.openFlow? .flowMapping
  else if b = ']' then s.closeFlow? .flowSequenceEnd
  else if b = '\x7d' then s.closeFlow? .flowMappingEnd
  else if b = ',' then s.afterComma?
  else if b = '-' && spaced then s.afterDash?
  else if b = '?' && (s.inFlow || spaced) then s.key?
  else if b = ':' && (s.inFlow || spaced) then s.value?
  else if b = '*' then (c.advance 1).anchorName?.bind fun (name, c) => s.property? (.alias name) c
  else if b = '&' then (c.advance 1).anchorName?.bind fun (name, c) => s.property? (.anchor name) c
  else if b = '!' then c.tag?.bind fun ((handle, suffix), c) => s.property? (.tag handle suffix) c
  else if b = '|' && !s.inFlow then s.blockScalar? true
  else if b = '>' && !s.inFlow then s.blockScalar? false
  else if b = '\'' then s.quotedScalar? false
  else if b = '"' then s.quotedScalar? true
  else if !isReserved b || b == '-' || (!s.inFlow && (b == '?' || b == ':')) then s.plainScalar?
  else none

/-- The scanner after the comment at the end of the line, after a token.  Behind the mark of an item
a comment belongs to what follows, and behind a scalar that ends with a line break there is none. -/
def afterToken (s : Scanner) : Scanner :=
  let commented := match s.queue.getLast? with
    | some .blockEntry => false
    | some (.scalar ..) => !s.keyAllowed
    | _ => true
  if commented then s.moveTo s.cursor.skipLineComment else s

/-- The scanner after the token here, which is not preceded by white space. -/
def readToken? (s : Scanner) : Option Scanner :=
  let c := s.cursor
  match c.rest with
  | [] => s.endDocument?.map fun s => (s.push .streamEnd).moveTo c.finishLine
  | b :: _ =>
    if c.column = 0 && b == '%' then
      (c.advance 1).directive?.bind fun (d, c) =>
        s.endDocument?.map fun s => (s.push (.directive d)).moveTo c
    else if c.atMarker '-' then s.endDocument?.map fun s => s.pushAdvance .documentStart 3
    else if c.atMarker '.' then s.endDocument?.map fun s => s.pushAdvance .documentEnd 3
    else (s.readFrom? b).map afterToken

/-- The scanner after one more token has been read. -/
def read? (s : Scanner) : Option Scanner :=
  let s := s.skipSpace (s.cursor.size + 1)
  let s := s.closeBlocks s.cursor.column
  (s.moveTo (s.cursor.need 4)).readToken?.filter (!·.cursor.stuck)

/-- The possible key in front of the next token, if there is one. -/
def headKey? (s : Scanner) : Option PossibleKey :=
  s.keys.findSome? fun k => k.filter (·.number == s.taken)

/-- The scanner with enough tokens in its queue: the next one and two more, where the next one is
known not to be preceded by a key. -/
def fill? : (fuel : Nat) → Scanner → Option Scanner
  | 0, _ => none
  | fuel + 1, s =>
    if s.queue.length ≤ 2 then s.read?.bind (fill? fuel)
    else match s.headKey? with
      | none => some s
      | some k =>
        if !s.hasLeft k then s.read?.bind (fill? fuel)
        else if k.required then none
        else some { s with keys := forget s.keys k.number }

/-- The next token. -/
def peek? (s : Scanner) : Option (Token × Scanner) :=
  (if s.settled then some s else s.fill? (s.cursor.size + 4)).bind fun s =>
    s.queue.head?.map fun t => (t, { s with settled := true })

/-- The scanner behind the next token. -/
def skip (s : Scanner) : Scanner :=
  { s with queue := s.queue.tail, taken := s.taken + 1, settled := false }

end Scanner

end DtoSchema.Yaml
