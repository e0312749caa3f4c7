import Weaver.Source.Fault
import Weaver.Number.Reader
/-!
The text that a character or string literal denotes.

Escapes are resolved from the left: the letters b, t, n, f, r, a quote or a backslash, up to three
octal digits, or `u` (any number of them) with four hexadecimal digits. A code that is half of a
surrogate pair denotes no character and reads as the replacement character.
-/
set_option autoImplicit false

namespace Weaver.Source

open Weaver.Text (Glyph)

namespace Escape

/-- The bytes of a text. -/
def bytes (cs : List Char) : List UInt8 :=
  (String.ofList cs).toUTF8.toList

/-- The character that a four digit code denotes. -/
def codeChar (n : Nat) : Char :=
  if 0xD800 ≤ n && n ≤ 0xDFFF then Text.replacement else Char.ofNat n

/-- The value of four hexadecimal digits at the start of a text. -/
def fourHex? : List Char → Option (Nat × List Char)
  | a :: b :: c :: d :: rest =>
    let digits := [a, b, c, d].map Number.digitValue
    if digits.all (· < 16) then some (digits.foldl (fun n k => n * 16 + k) 0, rest) else none
  | _ => none

/-- Octal digits at the start of a text, at most `max` of them: their value and what follows. -/
def octal : Nat → Nat → List Char → Nat × List Char
  | 0, n, cs => (n, cs)
  | _ + 1, n, [] => (n, [])
  | max + 1, n, c :: cs =>
    if '0' ≤ c && c ≤ '7' then octal max (n * 8 + (c.toNat - 48)) cs else (n, c :: cs)

/-- The fault of a four digit code that is none: too short, or four bytes that are no digits. -/
def codeFault (cs : List Char) : EscapeFault :=
  let bs := bytes cs
  if bs.length < 4 then .shortCode else .badCode (Glyph.decode (bs.take 4))

/-- What the escape after a backslash denotes, and what follows it. -/
def step : List Char → Except EscapeFault (Char × List Char)
  | [] => .error .unterminated
  | e :: rest =>
    if e == 'b' then .ok ('\x08', rest)
    else if e == 't' then .ok ('\t', rest)
    else if e == 'n' then .ok ('\n', rest)
    else if e == 'f' then .ok ('\x0c', rest)
    else if e == 'r' then .ok ('\r', rest)
    else if e == '"' || e == '\'' || e == '\\' then .ok (e, rest)
    else if e == 'u' then
      let digits := rest.dropWhile (· == 'u')
      match fourHex? digits with
      | some (n, more) => .ok (codeChar n, more)
      | none => .error (codeFault digits)
    else if '0' ≤ e && e ≤ '7' then
      let (n, more) := octal (if '3' < e then 2 else 3) 0 (e :: rest)
      .ok (Char.ofNat n, more)
    else .error (.unknown (Char.ofNat ((bytes [e]).headD 0).toNat))

/-- Resolves escapes; the first argument bounds the number of steps. -/
def resolve : Nat → List Char → Except EscapeFault (List Char)
  | 0, _ => .ok []
  | _ + 1, [] => .ok []
  | fuel + 1, c :: rest =>
    if c == '\\' then
      match step rest with
      | .error e => .error e
      | .ok (d, more) => (resolve fuel more).map (d :: ·)
    else (resolve fuel rest).map (c :: ·)

end Escape

/-- The text that the characters between the quotes denote. -/
def unescape (body : List Char) : Except EscapeFault (List Char) :=
  Escape.resolve body.length body

end Weaver.Source
