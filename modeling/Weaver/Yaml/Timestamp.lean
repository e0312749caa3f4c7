/-!
Dates and times.

A date is written as `2001-2-3`. A time of the day can follow after a blank, or after the letter T
and then with an offset from universal time, or with the letter Z for that time itself.
-/
set_option autoImplicit false

namespace Weaver.Yaml

/-- The time that a time of the day is meant in. -/
inductive Zone where
  | universal
  /-- An offset of nothing, which is that of the place. -/
  | here
  /-- An offset in minutes. -/
  | offset (minutes : Int)
deriving Repr, DecidableEq, Inhabited

/-- A date and a time of the day. -/
structure Timestamp where
  year : Nat
  month : Nat
  day : Nat
  hour : Nat
  minute : Nat
  second : Nat
  nanosecond : Nat
  zone : Zone
deriving Repr, DecidableEq, Inhabited

namespace Timestamp

/-! ## Reading -/

/-- The number that digits stand for. -/
def number (ds : List Char) : Nat := ds.foldl (fun n d => n * 10 + (d.toNat - 48)) 0

/-- Reads a number of one or two digits. -/
def short? : List Char → Option (Nat × List Char)
  | a :: b :: r =>
    if !a.isDigit then none
    else if b.isDigit then some (number [a, b], r) else some (number [a], b :: r)
  | [a] => if a.isDigit then some (number [a], []) else none
  | [] => none

/-- Reads a character. -/
def char? (c : Char) : List Char → Option (List Char)
  | x :: r => if x == c then some r else none
  | [] => none

/-- A year has a day more in February. -/
def isLeap (year : Nat) : Bool := year % 4 == 0 && (year % 100 != 0 || year % 400 == 0)

/-- The number of days of a month. -/
def daysIn (year month : Nat) : Nat :=
  if month == 2 then if isLeap year then 29 else 28
  else if [4, 6, 9, 11].contains month then 30 else 31

/-- Reads a date. -/
def date? (cs : List Char) : Option (Timestamp × List Char) := do
  let year := cs.takeWhile Char.isDigit
  if year.length != 4 then none
  let r ← char? '-' (cs.drop 4)
  let (month, r) ← short? r
  let r ← char? '-' r
  let (day, r) ← short? r
  if month == 0 || 12 < month || day == 0 || daysIn (number year) month < day then none
  return (⟨number year, month, day, 0, 0, 0, 0, .universal⟩, r)

/-- Reads the parts of a second, if there are any. Nine digits count. -/
def fraction (cs : List Char) : Nat × List Char :=
  match cs with
  | p :: r =>
    let digits := r.takeWhile Char.isDigit
    if (p == '.' || p == ',') && !digits.isEmpty then
      let used := digits.take 9
      (number used * Nat.pow 10 (9 - used.length), r.drop digits.length)
    else (0, cs)
  | [] => (0, [])

/-- Reads a time of the day. -/
def clock? (t : Timestamp) (cs : List Char) : Option (Timestamp × List Char) := do
  let (hour, r) ← short? cs
  let (minute, r) ← short? (← char? ':' r)
  let (second, r) ← short? (← char? ':' r)
  if 24 ≤ hour || 60 ≤ minute || 60 ≤ second then none
  let (nanosecond, r) := fraction r
  return ({ t with hour := hour, minute := minute, second := second, nanosecond := nanosecond }, r)

/-- The zone that is all of a text. -/
def zone? (cs : List Char) : Option Zone :=
  match cs with
  | ['Z'] => some .universal
  | [sign, a, b, ':', c, d] =>
    if !([a, b, c, d].all Char.isDigit) || (sign != '+' && sign != '-') then none
    else if 24 < number [a, b] || 60 < number [c, d] then none
    else
      let n : Int := number [a, b] * 60 + number [c, d]
      some (if n == 0 then .here else .offset (if sign == '-' then -n else n))
  | _ => none

/-- The date, with or without a time of the day, that a text is. -/
def ofText? (text : String) : Option Timestamp := do
  let (t, r) ← date? text.toList
  match r with
  | [] => return t
  | c :: r =>
    if c == 'T' || c == 't' then
      let (t, r) ← clock? t r
      return { t with zone := ← zone? r }
    else if c == ' ' then
      let (t, r) ← clock? t (r.dropWhile (· == ' '))
      if r.isEmpty then return t else none
    else none

/-! ## Writing -/

/-- A number with at least so many digits. -/
def padded (width n : Nat) : String :=
  let s := toString n
  String.ofList (List.replicate (width - s.length) '0') ++ s

/-- The digits of the parts of a second after a point, without zeros at the end. -/
def fractionText (nanosecond : Nat) : String :=
  if nanosecond == 0 then ""
  else "." ++ String.ofList
    (((padded 9 nanosecond).toList.reverse.dropWhile (· == '0')).reverse)

/-- An offset in hours and minutes. -/
def offsetText (minutes : Int) : String :=
  (if minutes < 0 then "-" else "+") ++ padded 2 (minutes.natAbs / 60) ++
    padded 2 (minutes.natAbs % 60)

/-- The offset and the name of a zone. -/
def zoneText : Zone → String
  | .universal | .here => "+0000 UTC"
  | .offset n => offsetText n ++ " " ++ offsetText n

/-- A date and a time as they are shown. -/
def text (t : Timestamp) : String :=
  padded 4 t.year ++ "-" ++ padded 2 t.month ++ "-" ++ padded 2 t.day ++ " " ++
    padded 2 t.hour ++ ":" ++ padded 2 t.minute ++ ":" ++ padded 2 t.second ++
    fractionText t.nanosecond ++ " " ++ zoneText t.zone

/-- The names of the months. -/
def monthNames : List String :=
  ["January", "February", "March", "April", "May", "June", "July", "August", "September", "October",
   "November", "December"]

/-- A date and a time as the expression that makes them. -/
def expression (t : Timestamp) : String :=
  let zone := match t.zone with
    | .universal => "time.UTC"
    | .here => "time.Local"
    | .offset _ => "time.Location(\"\")"
  "time.Date(" ++ toString t.year ++ ", time." ++ monthNames.getD (t.month - 1) "" ++ ", " ++
    ", ".intercalate ([t.day, t.hour, t.minute, t.second, t.nanosecond].map toString) ++ ", " ++
    zone ++ ")"

end Timestamp

end Weaver.Yaml
