import Weaver.Number.Floating
/-!
Reading number literals.

The texts are those a scanner has already accepted as numbers: digits of a base, underscores
between them, a fraction, an exponent.
-/
set_option autoImplicit false

namespace Weaver.Number

/-- Why a number literal has no value. -/
inductive ReadError where
  | syntaxError
  | outOfRange
deriving Repr, DecidableEq

/-- The value of a digit in bases up to sixteen. -/
def digitValue (c : Char) : Nat :=
  if '0' ≤ c && c ≤ '9' then c.toNat - 48
  else if 'a' ≤ c && c ≤ 'f' then c.toNat - 87
  else if 'A' ≤ c && c ≤ 'F' then c.toNat - 55
  else 16

/-- The value of digits in a base, underscores left out, if there are only digits. -/
def digitsValue (base : Nat) (cs : List Char) : Option Nat :=
  cs.foldl
    (fun acc c => acc.bind fun n =>
      if c == '_' then some n
      else if digitValue c < base then some (n * base + digitValue c)
      else none)
    (some 0)

/-- The largest value of a 64 bit integer. -/
def maxLong : Nat := 0x7fffffffffffffff

/-- The base that the beginning of an integer literal stands for, and its digits. -/
def splitBase (cs : List Char) : Nat × List Char :=
  match cs with
  | '0' :: c :: rest =>
    if c == 'x' || c == 'X' then (16, rest)
    else if c == 'o' || c == 'O' then (8, rest)
    else if c == 'b' || c == 'B' then (2, rest)
    else (8, c :: rest)
  | _ => (10, cs)

/-- The value of an integer literal. -/
def readInteger (text : String) : Except ReadError Int :=
  let (base, digits) := splitBase text.toList
  match digitsValue base digits with
  | none => .error .syntaxError
  | some n => if digits.isEmpty then .error .syntaxError
    else if maxLong < n then .error .outOfRange
    else .ok n

/-- Mantissa, fraction and exponent of a floating point literal. -/
structure Parts where
  whole : List Char
  fraction : List Char
  exponent : Option (List Char)

/-- Cuts a literal at its point and at its exponent mark. -/
def Parts.of (isMark : Char → Bool) (cs : List Char) : Parts :=
  let mantissa := cs.takeWhile (fun c => !isMark c)
  let exponent := match cs.dropWhile (fun c => !isMark c) with
    | [] => none
    | _ :: rest => some rest
  let whole := mantissa.takeWhile (· != '.')
  ⟨whole, (mantissa.dropWhile (· != '.')).drop 1, exponent⟩

/-- The value of an exponent. Beyond five digits it no longer matters and is held. -/
def exponentValue (cs : List Char) : Option Int :=
  let (negative, digits) := match cs with
    | '-' :: r => (true, r)
    | '+' :: r => (false, r)
    | r => (false, r)
  let digits := digits.filter (· != '_')
  if digits.isEmpty || !digits.all Char.isDigit then none
  else
    let n := digits.foldl (fun n c => if n < 10000 then n * 10 + digitValue c else n) 0
    some (if negative then -(n : Int) else n)

/-- `n · base ^ e`, rounded to the format. -/
def scaled (f : Format) (negative : Bool) (n base : Nat) (e : Int) : Except ReadError Floating :=
  let value := if 0 ≤ e then Floating.ofQuotient f negative (n * Nat.pow base e.toNat) 1
    else Floating.ofQuotient f negative n (Nat.pow base (-e).toNat)
  match value with
  | .infinite _ => .error .outOfRange
  | v => .ok v

/-- The value of an unsigned floating point literal, decimal or hexadecimal. -/
def readUnsigned (f : Format) (negative : Bool) (cs : List Char) : Except ReadError Floating :=
  let hex := match cs with
    | '0' :: c :: _ => c == 'x' || c == 'X'
    | _ => false
  let isMark (c : Char) : Bool := if hex then c == 'p' || c == 'P' else c == 'e' || c == 'E'
  let p := Parts.of isMark (if hex then cs.drop 2 else cs)
  let base := if hex then 16 else 10
  let fraction := p.fraction.filter (· != '_')
  match digitsValue base (p.whole ++ fraction) with
  | none => .error .syntaxError
  | some n =>
    if (p.whole ++ fraction).all (· == '_') then .error .syntaxError
    else match p.exponent with
      | none =>
        if hex then .error .syntaxError else scaled f negative n 10 (-(fraction.length : Int))
      | some es => match exponentValue es with
        | none => .error .syntaxError
        | some e =>
          if hex then scaled f negative n 2 (e - 4 * fraction.length)
          else scaled f negative n 10 (e - fraction.length)

/-- The value of a floating point text with an optional sign; infinities and "not a number" may be
spelled out in any case. -/
def readFloating (f : Format) (text : String) : Except ReadError Floating :=
  let (negative, cs) := match text.toList with
    | '-' :: r => (true, r)
    | '+' :: r => (false, r)
    | r => (false, r)
  let word := String.ofList (cs.map Char.toLower)
  if word == "inf" || word == "infinity" then .ok (.infinite negative)
  else if word == "nan" then .ok .nan
  else readUnsigned f negative cs

end Weaver.Number
