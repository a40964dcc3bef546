import DtoSchema.Text.Number
import DtoSchema.Text.Quoted

/-!
# Flags

The words of a command line are flags, values of flags, and arguments.  A flag is written with its
name after two hyphens or with its letter after one; its value follows after an equals sign or as
the next word.  Letters may stand together in one word.  A word of two hyphens ends the flags.
-/

namespace DtoSchema.Command

open Text

/-- What the value of a flag is. -/
inductive FlagKind where
  /-- Any text. -/
  | text
  /-- An integer. -/
  | integer
  /-- A truth value, which is true if it is not written. -/
  | switch
  deriving DecidableEq, Repr

/-- A flag. -/
structure Flag where
  /-- Its name. -/
  name : Text
  /-- Its letter. -/
  letter : Option UInt8 := none
  /-- What its value is. -/
  kind : FlagKind := .text
  deriving DecidableEq, Repr

/-- The flag of a name. -/
def flagNamed? (flags : List Flag) (name : Text) : Option Flag := flags.find? (·.name == name)

/-- The flag of a letter. -/
def flagLettered? (flags : List Flag) (letter : UInt8) : Option Flag :=
  flags.find? (·.letter == some letter)

/-- Why the words of a command line cannot be read. -/
inductive FlagError where
  /-- There is no name after the two hyphens. -/
  | malformed (word : Text)
  /-- There is no flag of this name. -/
  | unknown (name : Text)
  /-- There is no flag of this letter, the first one of these. -/
  | unknownLetter (letter : UInt8) (letters : Text)
  /-- The value of a flag is missing. -/
  | missing (name : Text)
  /-- The value of a flag with this letter, the first one of these, is missing. -/
  | missingAfterLetter (letter : UInt8) (letters : Text)
  /-- The value of a flag is not an integer. -/
  | notInteger (flag : Flag) (value : Text) (error : NumberError)
  /-- The value of a flag is not a truth value. -/
  | notTruth (flag : Flag) (value : Text)
  deriving DecidableEq, Repr

/-- A letter between single quotes.  A byte that is not ASCII is shown as the character of the first
byte of its encoding as a character. -/
def quotedLetter (b : UInt8) : Text :=
  let shown := if b < 0x80 then b else if b < 0xc0 then 0xc2 else 0xc3
  let c := Char.ofNat shown.toNat
  if c = '\'' then "'\\''"
  else if c = '"' then "'\"'"
  else "'" ++ quotedChar c ++ "'"

/-- The ways to write a flag. -/
def Flag.forms (f : Flag) : Text :=
  match f.letter with
  | some letter => "-" ++ [letter] ++ ", --" ++ f.name
  | none => "--" ++ f.name

/-- The message that a value does not suit its flag, with the reason. -/
def invalidMessage (f : Flag) (value reader reason : Text) : Text :=
  "invalid argument " ++ quoted value ++ " for " ++ quoted f.forms ++ " flag: " ++ reader ++
    ": parsing " ++ quoted value ++ ": " ++ reason

/-- The reason why a text is no number. -/
def numberReason : NumberError → Text
  | .syntaxError => "invalid syntax"
  | .outOfRange => "value out of range"

/-- The message of an error. -/
def FlagError.message : FlagError → Text
  | malformed word => "bad flag syntax: " ++ word
  | unknown name => "unknown flag: --" ++ name
  | unknownLetter letter letters =>
    "unknown shorthand flag: " ++ quotedLetter letter ++ " in -" ++ letters
  | missing name => "flag needs an argument: --" ++ name
  | missingAfterLetter letter letters =>
    "flag needs an argument: " ++ quotedLetter letter ++ " in -" ++ letters
  | notInteger f value e => invalidMessage f value "strconv.ParseInt" (numberReason e)
  | notTruth f value => invalidMessage f value "strconv.ParseBool" "invalid syntax"

/-- The truth value of a text. -/
def truth? (s : Text) : Option Bool :=
  if s ∈ (["1", "t", "T", "true", "TRUE", "True"] : List Text) then some true
  else if s ∈ (["0", "f", "F", "false", "FALSE", "False"] : List Text) then some false
  else none

/-- The value of a flag, if it suits the flag. -/
def checkValue (f : Flag) (value : Text) : Except FlagError (Flag × Text) :=
  match f.kind with
  | .text => .ok (f, value)
  | .integer =>
    match anyBaseInteger value with
    | .ok _ => .ok (f, value)
    | .error e => .error (.notInteger f value e)
  | .switch => if (truth? value).isSome then .ok (f, value) else .error (.notTruth f value)

/-- A flag whose value is the next word, and the error if there is none. -/
structure Awaiting where
  /-- The flag. -/
  flag : Flag
  /-- The error. -/
  error : FlagError

/-- What a word of a command line says: values of flags, and a flag that awaits its value. -/
abbrev WordReading := Except FlagError (List (Flag × Text) × Option Awaiting)

/-- The reading of a word that gives one value. -/
def oneValue (f : Flag) (value : Text) : WordReading :=
  (checkValue f value).map fun v => ([v], none)

/-- The reading of a word that starts with two hyphens. -/
def readName (flags : List Flag) (word : Text) : WordReading :=
  let body := word.drop 2
  if body.head? = none ∨ body.head? = some (ascii '-') ∨ body.head? = some (ascii '=') then
    .error (.malformed word)
  else
    let (name, value?) := match cut? (ascii '=') body with
      | some (name, value) => (name, some value)
      | none => (body, none)
    match flagNamed? flags name, value? with
    | none, _ => .error (.unknown name)
    | some f, some value => oneValue f value
    | some f, none =>
      if f.kind = .switch then oneValue f "true" else .ok ([], some ⟨f, .missing name⟩)

/-- The reading of letters after one hyphen.  Letters that start with `test.` are passed over. -/
def readLetters (flags : List Flag) : Text → WordReading
  | [] => .ok ([], none)
  | c :: rest =>
    if startsWith (c :: rest) "test." then .ok ([], none)
    else match flagLettered? flags c with
    | none => .error (.unknownLetter c (c :: rest))
    | some f =>
      if 1 < rest.length ∧ rest.head? = some (ascii '=') then oneValue f (rest.drop 1)
      else if f.kind = .switch then do
        let first ← checkValue f "true"
        let (values, awaiting) ← readLetters flags rest
        return (first :: values, awaiting)
      else if rest.isEmpty then .ok ([], some ⟨f, .missingAfterLetter c (c :: rest)⟩)
      else oneValue f rest

/-- The words of a command line, told apart. -/
structure Words where
  /-- The flags with their values. -/
  values : List (Flag × Text) := []
  /-- The arguments. -/
  arguments : List Text := []
  deriving DecidableEq, Repr

/-- The word is an argument wherever it stands. -/
def isArgument (word : Text) : Bool := word.length ≤ 1 || !startsWith word "-"

/-- Tells the words of a command line apart, where a flag may await its value. -/
def readWordsFrom (flags : List Flag) : Option Awaiting → Words → List Text → Except FlagError Words
  | none, ws, [] => .ok ws
  | some a, _, [] => .error a.error
  | some a, ws, word :: rest => do
    let value ← checkValue a.flag word
    readWordsFrom flags none { ws with values := ws.values ++ [value] } rest
  | none, ws, word :: rest =>
    if isArgument word then
      readWordsFrom flags none { ws with arguments := ws.arguments ++ [word] } rest
    else if word = "--" then .ok { ws with arguments := ws.arguments ++ rest }
    else do
      let (values, awaiting) ←
        if startsWith word "--" then readName flags word else readLetters flags (word.drop 1)
      readWordsFrom flags awaiting { ws with values := ws.values ++ values } rest

/-- Tells the words of a command line apart. -/
def readWords (flags : List Flag) (words : List Text) : Except FlagError Words :=
  readWordsFrom flags none {} words

namespace Words

/-- The value of a flag that was given, the last one if there are several. -/
def given? (ws : Words) (f : Flag) : Option Text := (ws.values.findRev? (·.1 == f)).map (·.2)

/-- The value of a flag with a text, or the default. -/
def textOf (ws : Words) (f : Flag) (default : Text) : Text := (ws.given? f).getD default

/-- The truth value of a switch. -/
def isOn (ws : Words) (f : Flag) : Bool := (ws.given? f).bind truth? == some true

/-- The integer of a flag that was given. -/
def integer? (ws : Words) (f : Flag) : Option Int :=
  (ws.given? f).bind fun s => (anyBaseInteger s).toOption

end Words

end DtoSchema.Command
