import Weaver.Text.Glyph
import Weaver.Text.Printable
/-!
Quoted text, as messages show it: the text between double quotes, with a backslash before quotes
and backslashes and an escape for every character that is not printable.
-/
set_option autoImplicit false

namespace Weaver.Text

/-- A hexadecimal digit. -/
def hexDigit (n : Nat) : Char :=
  if n < 10 then Char.ofNat (48 + n) else Char.ofNat (87 + n)

/-- The last `width` hexadecimal digits of a number. -/
def hexDigits : Nat → Nat → List Char
  | 0, _ => []
  | width + 1, n => hexDigits width (n / 16) ++ [hexDigit (n % 16)]

namespace Quoted

/-- The escape of a character between quotes of the given kind. -/
def escape (quote c : Char) : List Char :=
  if c == quote || c == '\\' then ['\\', c]
  else if isPrintable c then [c]
  else match c.toNat with
    | 0x07 => ['\\', 'a']
    | 0x08 => ['\\', 'b']
    | 0x0C => ['\\', 'f']
    | 0x0A => ['\\', 'n']
    | 0x0D => ['\\', 'r']
    | 0x09 => ['\\', 't']
    | 0x0B => ['\\', 'v']
    | n =>
      if n < 0x20 || n == 0x7f then '\\' :: 'x' :: hexDigits 2 n
      else if n < 0x10000 then '\\' :: 'u' :: hexDigits 4 n
      else '\\' :: 'U' :: hexDigits 8 n

/-- The escape of a glyph: a stray byte is shown by its value. -/
def escapeGlyph (quote : Char) : Glyph → List Char
  | .char c => escape quote c
  | .stray b => '\\' :: 'x' :: hexDigits 2 b.toNat

end Quoted

/-- Glyphs between double quotes. -/
def quoteGlyphs (gs : List Glyph) : String :=
  String.ofList ('"' :: gs.flatMap (Quoted.escapeGlyph '"') ++ ['"'])

/-- Text between double quotes. -/
def quote (s : String) : String :=
  String.ofList ('"' :: s.toList.flatMap (Quoted.escape '"') ++ ['"'])

/-- A character between single quotes. -/
def quoteChar (c : Char) : String :=
  String.ofList ('\'' :: Quoted.escape '\'' c ++ ['\''])

end Weaver.Text
