import Weaver.Number.Shortest
import Weaver.Text.Glyph
/-!
Literal constants and their written form.

Integers keep the value they were read with, floating point constants are exact numbers of their
format, and a character is held by its code point, which need not be a valid one.
-/
set_option autoImplicit false

namespace Weaver.Source

open Weaver.Number (Floating Format)

/-- A constant. -/
inductive Literal where
  | int (value : Int)
  | long (value : Int)
  | float (value : Floating)
  | double (value : Floating)
  | char (code : Int)
  | text (value : String)
  | boolean (value : Bool)
  | null
deriving Repr, DecidableEq, Inhabited

namespace Literal

/-- The character with a code point; what is no code point is shown by the replacement
character. -/
def charOf (code : Int) : Char :=
  if code < 0 then Text.replacement
  else
    let n := code.toNat
    if n < 0xD800 || (0xDFFF < n && n < 0x110000) then Char.ofNat n else Text.replacement

/-- The last four hexadecimal digits of a number. -/
def hexFour (n : Nat) : List Char :=
  let digit (k : Nat) : Char := if k < 10 then Char.ofNat (48 + k) else Char.ofNat (87 + k)
  [digit (n / 4096 % 16), digit (n / 256 % 16), digit (n / 16 % 16), digit (n % 16)]

/-- How one character is written between quotes of the given kind. -/
def escapeChar (quote c : Char) : List Char :=
  if c == '\\' then ['\\', '\\']
  else if c == '\n' then ['\\', 'n']
  else if c == '\t' then ['\\', 't']
  else if c == '\r' then ['\\', 'r']
  else if c == '\x08' then ['\\', 'b']
  else if c == '\x0c' then ['\\', 'f']
  else if c == '\x00' then ['\\', '0']
  else if c == quote then ['\\', quote]
  else if c.toNat < 0x20 || c.toNat == 0x7f then '\\' :: 'u' :: hexFour c.toNat
  else [c]

/-- Text written between quotes of the given kind. -/
def escape (quote : Char) (cs : List Char) : List Char :=
  cs.flatMap (escapeChar quote)

/-- Text with the quotes around it. -/
def quoted (quote : Char) (cs : List Char) : String :=
  String.ofList (quote :: (escape quote cs ++ [quote]))

/-- A floating point text that shows that it is one: a whole number gets a fraction. -/
def withFraction (s : String) : String :=
  if s.toList.any (fun c => c == '.' || c == 'e' || c == 'E' || c == 'I' || c == 'N') then s
  else s ++ ".0"

/-- The constant as it is written in source text. -/
def print : Literal → String
  | int v => toString v
  | long v => toString v ++ "L"
  | float v => withFraction (v.text .single) ++ "F"
  | double v => withFraction (v.text .double)
  | char code => quoted '\'' [charOf code]
  | text s => quoted '"' s.toList
  | boolean b => if b then "true" else "false"
  | null => "null"

/-- The bare value, without quotes and suffixes; a character is given by its code point. -/
def value : Literal → String
  | int v => toString v
  | long v => toString v
  | float v => v.text .single
  | double v => v.text .double
  | char code => toString code
  | text s => s
  | boolean b => if b then "true" else "false"
  | null => ""

end Literal

end Weaver.Source
