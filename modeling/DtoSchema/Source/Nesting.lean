import DtoSchema.Text.Space

/-!
# Literals and brackets in a source

A scan over a source keeps track of two things: whether it stands inside a string or character
literal, and how many brackets are open.  Both are folded byte by byte, so what a scan knows at a
place is a function of the text before it.

On top of that state stand the searches that respect nesting: cutting a text at its separators
(`splitTopLevel`), finding a byte outside of all brackets (`topLevelIndex?`), reading a balanced
block (`readBalanced?`) and blanking out what stands inside brace blocks (`blankNested`).
-/

namespace DtoSchema.Source

open Text

/-! ### Literals -/

/-- The bytes that open and close literals. -/
def isQuote (b : UInt8) : Bool := b == ascii '"' || b == ascii '\''

/-- Where a scan stands with respect to literals. -/
inductive Quoting where
  /-- Outside of every literal. -/
  | code
  /-- Inside a literal that `quote` closes. -/
  | inside (quote : UInt8)
  /-- Inside such a literal, right after a backslash. -/
  | escape (quote : UInt8)
  deriving DecidableEq, Repr

/-- The state after one more byte: a backslash inside a literal protects the byte after it. -/
def Quoting.step : Quoting → UInt8 → Quoting
  | .code, b => if isQuote b then .inside b else .code
  | .inside q, b => if b = ascii '\\' then .escape q else if b = q then .code else .inside q
  | .escape q, _ => .inside q

/-- The number of bytes of a literal that stand after its opening `quote`, the closing quote
included; an unclosed literal reaches to the end. -/
def literalWidth : Quoting → Text → Nat
  | _, [] => 0
  | q, b :: s =>
    match q.step b with
    | .code => 1
    | q' => literalWidth q' s + 1

/-! ### Brackets -/

/-- A family of brackets, by the bytes that open and those that close. -/
structure Brackets where
  /-- The opening bytes. -/
  opening : Text
  /-- The closing bytes. -/
  closing : Text

/-- Parentheses, square brackets, braces and angle brackets. -/
def Brackets.all : Brackets := ⟨"<([\x7b", ">)]\x7d"⟩

/-- Parentheses, square brackets and braces. -/
def Brackets.grouping : Brackets := ⟨"([\x7b", ")]\x7d"⟩

/-- Parentheses and square brackets. -/
def Brackets.parens : Brackets := ⟨"([", ")]"⟩

/-- Braces alone. -/
def Brackets.braces : Brackets := ⟨[ascii '\x7b'], [ascii '\x7d']⟩

/-- What a scan knows at a place of a text. -/
structure Place where
  /-- The state of the literal around the place. -/
  quoting : Quoting := .code
  /-- The number of open brackets around the place. -/
  depth : Nat := 0
  deriving DecidableEq, Repr

/-- The place after one more byte.  Brackets count outside of literals only, and a closing bracket
that closes nothing is ignored. -/
def Place.step (brackets : Brackets) (p : Place) (b : UInt8) : Place where
  quoting := p.quoting.step b
  depth :=
    match p.quoting with
    | .code =>
      if isQuote b then p.depth
      else if b ∈ brackets.opening then p.depth + 1
      else if b ∈ brackets.closing then p.depth - 1
      else p.depth
    | _ => p.depth

/-- The place is outside of every literal and every bracket. -/
def Place.isTop (p : Place) : Bool := p.quoting == .code && p.depth == 0

/-- The byte is neither a quote nor a bracket of the family. -/
def Brackets.isPlain (brackets : Brackets) (b : UInt8) : Bool :=
  !isQuote b && b ∉ brackets.opening && b ∉ brackets.closing

/-- The byte `b` at place `p` separates two parts of a text: it is in the class `sep` and stands
outside of every literal and bracket, being none itself. -/
def Place.cutsAt (brackets : Brackets) (sep : UInt8 → Bool) (p : Place) (b : UInt8) : Bool :=
  p.isTop && brackets.isPlain b && sep b

/-! ### Cutting at separators -/

/-- The parts of a text between its top level separators; there is always at least one. -/
def segments (brackets : Brackets) (sep : UInt8 → Bool) : Place → Text → List Text
  | _, [] => [[]]
  | p, b :: s =>
    if p.cutsAt brackets sep b then [] :: segments brackets sep p s
    else match segments brackets sep (p.step brackets b) s with
      | part :: parts => (b :: part) :: parts
      | [] => [[b]]

/-- The list without its last member if that is empty. -/
def dropEmptyEnd (parts : List Text) : List Text :=
  if parts.getLast? = some [] then parts.dropLast else parts

/-- The parts of a text between the bytes `sep` that stand outside of literals and of brackets of
every kind.  A separator at the very end leaves no empty part after it. -/
def splitTopLevel (sep : UInt8) (s : Text) : List Text :=
  dropEmptyEnd (segments .all (· == sep) {} s)

/-- The offset, from place `p` on, of the first byte `target` at the top level. -/
def topLevelFrom (target : UInt8) : Place → Text → Option Nat
  | _, [] => none
  | p, b :: s =>
    if p.cutsAt .grouping (· == target) b then some 0
    else (topLevelFrom target (p.step .grouping b) s).map (· + 1)

/-- The offset of the first byte `target` outside of literals, parentheses, square brackets and
braces. -/
def topLevelIndex? (target : UInt8) (s : Text) : Option Nat := topLevelFrom target {} s

/-- The text before the first top level `target`, which is all of it when there is none. -/
def beforeTopLevel (target : UInt8) (s : Text) : Text :=
  match topLevelIndex? target s with
  | some i => s.take i
  | none => s

/-- The offset of the first semicolon outside of parentheses and braces, given how many of each are
open.  Literals are not regarded. -/
def semicolonFrom : (parens braces : Nat) → Text → Option Nat
  | _, _, [] => none
  | parens, braces, b :: s =>
    if b = ascii '(' then (semicolonFrom (parens + 1) braces s).map (· + 1)
    else if b = ascii ')' then (semicolonFrom (parens - 1) braces s).map (· + 1)
    else if b = ascii '\x7b' then (semicolonFrom parens (braces + 1) s).map (· + 1)
    else if b = ascii '\x7d' then (semicolonFrom parens (braces - 1) s).map (· + 1)
    else if b = ascii ';' ∧ parens = 0 ∧ braces = 0 then some 0
    else (semicolonFrom parens braces s).map (· + 1)

/-- The offset of the first semicolon outside of parentheses and braces. -/
def topLevelSemicolon? (s : Text) : Option Nat := semicolonFrom 0 0 s

/-! ### Balanced blocks -/

/-- One more byte at the start of the first of two texts. -/
def consFirst (b : UInt8) (r : Text × Text) : Text × Text := (b :: r.1, r.2)

/-- The content of an open block up to the closing byte that matches its opening byte, and the text
after that byte.  `depth` counts the further blocks opened inside. -/
def blockRest? (opening closing : UInt8) : Quoting → (depth : Nat) → Text → Option (Text × Text)
  | _, _, [] => none
  | .code, depth, b :: s =>
    if isQuote b then (blockRest? opening closing (.inside b) depth s).map (consFirst b)
    else if b = opening then (blockRest? opening closing .code (depth + 1) s).map (consFirst b)
    else if b = closing then
      match depth with
      | 0 => some ([], s)
      | d + 1 => (blockRest? opening closing .code d s).map (consFirst b)
    else (blockRest? opening closing .code depth s).map (consFirst b)
  | q, depth, b :: s => (blockRest? opening closing (q.step b) depth s).map (consFirst b)

/-- The content of the balanced block at the start of a text, and the text after its closing byte.
There is none if the text does not start with the opening byte or the block is never closed;
brackets inside literals do not count. -/
def readBalanced? (opening closing : UInt8) : Text → Option (Text × Text)
  | [] => none
  | b :: s => if b = opening ∧ ¬ isQuote b then blockRest? opening closing .code 0 s else none

/-- The content of the balanced block that opens at offset `start`, and the offset of its closing
byte.  There is nothing at a negative offset. -/
def readBalancedAt? (opening closing : UInt8) (s : Text) : (start : Int) → Option (Text × Nat)
  | .ofNat start =>
    (readBalanced? opening closing (s.drop start)).map fun (content, _) =>
      (content, start + content.length + 1)
  | .negSucc _ => none

/-! ### Blanking nested blocks -/

/-- How byte `b` at place `p` shows when nested blocks are blanked: inside a block every byte but a
line feed is a space, and the outermost braces stay. -/
def blanked (p : Place) (b : UInt8) : UInt8 :=
  if 0 < p.depth ∧ 0 < (p.step .braces b).depth ∧ b ≠ ascii '\n' then ascii ' ' else b

/-- `blankNested` from place `p` on. -/
def blankFrom : Place → Text → Text
  | _, [] => []
  | p, b :: s => blanked p b :: blankFrom (p.step .braces b) s

/-- The text with the content of every brace block written as spaces.  Line feeds stay, so every
offset and every line keeps its place. -/
def blankNested (s : Text) : Text := blankFrom {} s

/-! ### Identifiers and gaps -/

/-- The text from its first byte that is no gap. -/
def skipGaps (s : Text) : Text := s.dropWhile isGap

/-- The first offset at or after `i` that holds no gap. -/
def skipGapsAt (s : Text) (i : Nat) : Nat := i + ((s.drop i).takeWhile isGap).length

/-- The identifier at the start of a text. -/
def identAt : Text → Text
  | [] => []
  | b :: s => if isIdentStart b then b :: s.takeWhile isIdentPart else []

/-- The identifier at the start of a text after gaps, and the empty text if there is none. -/
def leadingIdent (s : Text) : Text := identAt (skipGaps s)

/-- The text is an identifier. -/
def isIdent : Text → Bool
  | [] => false
  | b :: s => isIdentStart b && s.all isIdentPart

end DtoSchema.Source
