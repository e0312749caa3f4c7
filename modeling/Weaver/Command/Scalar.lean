import Weaver.Number.Reader
import Weaver.Source.Fault
import Weaver.Source.Lexer
import Weaver.Text.Quoted
/-!
Numbers and truth values in command lines and settings.
-/
set_option autoImplicit false

namespace Weaver.Scalar

open Weaver.Number (ReadError digitsValue)

/-- The base and the digits of a number without its sign. A letter for the base needs a digit after
it. -/
def splitBase (cs : List Char) : Nat × List Char :=
  match cs with
  | '0' :: c :: d :: rest =>
    if c == 'x' || c == 'X' then (16, d :: rest)
    else if c == 'o' || c == 'O' then (8, d :: rest)
    else if c == 'b' || c == 'B' then (2, d :: rest)
    else (8, c :: d :: rest)
  | '0' :: rest => (8, rest)
  | _ => (10, cs)

/-- The value of an integer of 64 bits with an optional sign. -/
def readInteger (text : String) : Except ReadError Int :=
  let (negative, cs) := match text.toList with
    | '-' :: r => (true, r)
    | '+' :: r => (false, r)
    | r => (false, r)
  let (base, digits) := splitBase cs
  match digitsValue base digits with
  | none => .error .syntaxError
  | some n =>
    if cs.isEmpty || (cs.contains '_' && !Source.Lexer.wellSeparated cs) then .error .syntaxError
    else if negative then if 0x8000000000000000 < n then .error .outOfRange else .ok (-(n : Int))
    else if 0x8000000000000000 ≤ n then .error .outOfRange
    else .ok n

/-- The truth value that a word stands for. -/
def readFlag? (text : String) : Option Bool :=
  if ["1", "t", "T", "true", "TRUE", "True"].contains text then some true
  else if ["0", "f", "F", "false", "FALSE", "False"].contains text then some false
  else none

/-- Why a text has no value of the kind that a reader reads. -/
def fault (reader text : String) : ReadError → String
  | .syntaxError => reader ++ ": parsing " ++ Text.quote text ++ ": invalid syntax"
  | .outOfRange => reader ++ ": parsing " ++ Text.quote text ++ ": value out of range"

/-- The integer in a text, or what is wrong with it. -/
def integer (text : String) : Except String Int :=
  (readInteger text).mapError (fault "strconv.ParseInt" text)

/-- The truth value in a text, or what is wrong with it. -/
def flag (text : String) : Except String Bool :=
  match readFlag? text with
  | some b => .ok b
  | none => .error (fault "strconv.ParseBool" text .syntaxError)

end Weaver.Scalar
