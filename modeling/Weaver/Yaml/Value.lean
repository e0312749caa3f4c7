import Weaver.Command.Scalar
import Weaver.Number.Shortest
import Weaver.Yaml.Cursor
import Weaver.Yaml.Timestamp
/-!
Values of YAML documents.

A plain scalar stands for a number, a date, a truth value or nothing if it looks like one, otherwise
for its text. A tag says what it has to stand for.
-/
set_option autoImplicit false

namespace Weaver.Yaml

open Weaver.Number (Floating)

/-- A value. -/
inductive Value where
  | null
  | flag (b : Bool)
  | integer (n : Int)
  | floating (x : Floating)
  | text (s : String)
  | time (t : Timestamp)
  | list (vs : List Value)
  /-- Each key belongs to the value at its place. The keys are texts, unless the map is general. -/
  | map (general : Bool) (keys values : List Value)
deriving Inhabited, BEq

/-- How known tags begin. -/
def longTag : String := "tag:yaml.org,2002:"

/-- A tag with the known beginning cut short. -/
def shortTag (tag : String) : String :=
  if tag.startsWith longTag then "!!" ++ (tag.drop longTag.length).toString else tag

namespace Value

/-! ## Scalars without a tag -/

/-- The digits with a point or an exponent among them, as a floating point number is written. -/
def looksFloating (cs : List Char) : Bool :=
  let cs := match cs with
    | '-' :: r | '+' :: r => r
    | r => r
  let whole := cs.takeWhile Char.isDigit
  let (fraction, rest) := match cs.dropWhile Char.isDigit with
    | '.' :: r => (r.takeWhile Char.isDigit, r.dropWhile Char.isDigit)
    | r => ([], r)
  let mantissa := !whole.isEmpty || !fraction.isEmpty
  mantissa && match rest with
    | [] => true
    | e :: r =>
      let digits := match r with
        | '-' :: d | '+' :: d => d
        | d => d
      (e == 'e' || e == 'E') && !digits.isEmpty && digits.all Char.isDigit

/-- The words that stand for a value, with the tags of the values. -/
def word? (s : String) : Option (String × Value) :=
  if ["", "~", "null", "Null", "NULL"].contains s then some ("!!null", null)
  else if ["true", "True", "TRUE"].contains s then some ("!!bool", flag true)
  else if ["false", "False", "FALSE"].contains s then some ("!!bool", flag false)
  else if [".nan", ".NaN", ".NAN"].contains s then some ("!!float", floating .nan)
  else if [".inf", ".Inf", ".INF", "+.inf", "+.Inf", "+.INF"].contains s then
    some ("!!float", floating (.infinite false))
  else if ["-.inf", "-.Inf", "-.INF"].contains s then some ("!!float", floating (.infinite true))
  else none

/-- The integer in a text. It has 64 bits, and those of one without a sign can all be used for its
value. -/
def integer? (cs : List Char) : Option Int :=
  match Scalar.readInteger (String.ofList cs) with
  | .ok n => some n
  | .error _ =>
    if cs.head?.any Char.isDigit then
      let (base, digits) := Scalar.splitBase cs
      match Number.digitsValue base digits with
      | some n => if n < 0x10000000000000000 then some n else none
      | none => none
    else none

/-- The integer in a text whose sign stands after the letter for its base. -/
def innerSign? (cs : List Char) : Option Int :=
  let read (base : Nat) (sign : Char) (digits : List Char) : Option Int :=
    if digits.isEmpty || (sign != '+' && sign != '-') then none
    else match Number.digitsValue base digits with
      | some n =>
        if sign == '-' then if n ≤ 0x8000000000000000 then some (-(n : Int)) else none
        else if n < 0x8000000000000000 then some n else none
      | none => none
  match cs with
  | '0' :: 'b' :: sign :: digits => read 2 sign digits
  | '0' :: 'o' :: sign :: digits => read 8 sign digits
  | _ => none

/-- The floating point number in a text, if there is one. -/
def floating? (cs : List Char) : Option Floating :=
  match Number.readFloating .double (String.ofList cs) with
  | .ok x => some x
  | .error _ => none

/-- What a scalar without a tag stands for, with the tag of that value. Dates can be left out. -/
def ofPlain (dates : Bool) (s : String) : String × Value :=
  match word? s, s.toList with
  | some v, _ => v
  | none, [] => ("!!null", null)
  | none, c :: cs =>
    if c == '.' then
      if s.toList.contains '_' && !Source.Lexer.wellSeparated s.toList then ("!!str", text s)
      else match floating? (c :: cs) with
        | some x => ("!!float", floating x)
        | none => ("!!str", text s)
    else if !c.isDigit && c != '+' && c != '-' then ("!!str", text s)
    else
      match (if dates then Timestamp.ofText? s else none) with
      | some t => ("!!timestamp", time t)
      | none =>
        let digits := (c :: cs).filter (· != '_')
        match integer? digits with
        | some n => ("!!int", integer n)
        | none =>
          match (if looksFloating digits then floating? digits else none) with
          | some x => ("!!float", floating x)
          | none =>
            match innerSign? digits with
            | some n => ("!!int", integer n)
            | none => ("!!str", text s)

/-! ## Scalars with a tag -/

/-- The six bits that a character stands for. -/
def sixBits? (c : Char) : Option Nat :=
  if c.isUpper then some (c.toNat - 65)
  else if c.isLower then some (c.toNat - 71)
  else if c.isDigit then some (c.toNat + 4)
  else if c == '+' then some 62
  else if c == '/' then some 63
  else none

/-- The octets that groups of four characters stand for; the last group can be filled up. -/
def octets? : List Char → Option (List Nat)
  | [] => some []
  | [a, b, '=', '='] => do
    let n := (← sixBits? a) * 64 + (← sixBits? b)
    return [n / 16]
  | [a, b, c, '='] => do
    let n := ((← sixBits? a) * 64 + (← sixBits? b)) * 64 + (← sixBits? c)
    return [n / 1024, n / 4 % 256]
  | a :: b :: c :: d :: rest => do
    let n := (((← sixBits? a) * 64 + (← sixBits? b)) * 64 + (← sixBits? c)) * 64 + (← sixBits? d)
    return n / 65536 :: n / 256 % 256 :: n % 256 :: (← octets? rest)
  | _ => none

/-- The tags for which a scalar is looked at; all others leave its text as it is. -/
def isResolved (tag : String) : Bool :=
  ["!!bool", "!!int", "!!float", "!!null", "!!timestamp"].contains tag

/-- A scalar looks like something else than its tag says. -/
def undecodable (found s tag : String) : Fault :=
  .general ("cannot decode " ++ found ++ " `" ++ s ++ "` as a " ++ tag)

/-- The value of a scalar with a tag. An integer, unless it needs all 64 bits for its value, can
stand for a floating point number. -/
def ofScalar (tag s : String) : Except Fault Value :=
  if tag == "!!binary" then
    match octets? (s.toList.filter fun c => c != '\n' && c != '\r') with
    | some xs => .ok (text (String.ofList (octetText xs)))
    | none => .error (.general "!!binary value contains invalid base64 data")
  else if !isResolved tag then .ok (text s)
  else
    let (found, v) := ofPlain (tag == "!!timestamp") s
    if found == tag then .ok v
    else match v, tag == "!!float" && found == "!!int" with
      | integer n, true =>
        if n < 0x8000000000000000 then .ok (floating (.ofInt .double n))
        else .error (undecodable found s tag)
      | _, _ => .error (undecodable found s tag)

end Value

end Weaver.Yaml
