import DtoSchema.Text.Printable
import DtoSchema.Text.Symbol

/-!
# Quoted texts in messages

Messages quote a text between double quotes in such a way that it is legible and unambiguous: quotes
and backslashes are escaped, and so is everything that is not printable.
-/

namespace DtoSchema.Text

/-- The digit of a number below sixteen. -/
def hexDigit (n : Nat) : UInt8 :=
  if n < 10 then UInt8.ofNat (n + '0'.toNat) else UInt8.ofNat (n - 10 + 'a'.toNat)

/-- The hexadecimal digits of a number, `width` of them. -/
def hexDigits : (width : Nat) → Nat → Text
  | 0, _ => []
  | width + 1, n => hexDigits width (n / 16) ++ [hexDigit (n % 16)]

/-- A character as it stands between the quotes. -/
def quotedChar (c : Char) : Text :=
  if c = '"' ∨ c = '\\' then ascii '\\' :: String.utf8EncodeChar c
  else if Letter.isPrintable c then String.utf8EncodeChar c
  else
    match c with
    | '\x07' => "\\a"
    | '\x08' => "\\b"
    | '\x0c' => "\\f"
    | '\n' => "\\n"
    | '\r' => "\\r"
    | '\t' => "\\t"
    | '\x0b' => "\\v"
    | c =>
      if c.toNat < 0x80 then "\\x" ++ hexDigits 2 c.toNat
      else if c.toNat < 0x10000 then "\\u" ++ hexDigits 4 c.toNat
      else "\\U" ++ hexDigits 8 c.toNat

/-- A symbol as it stands between the quotes. -/
def quotedSymbol : Symbol → Text
  | .char c => quotedChar c
  | .stray b => "\\x" ++ hexDigits 2 b.toNat

/-- The text between double quotes, with everything escaped that is not printable. -/
def quoted (s : Text) : Text := "\"" ++ (symbols s).flatMap quotedSymbol ++ "\""

end DtoSchema.Text
