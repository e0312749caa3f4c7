import Weaver.Number.Floating
/-!
The shortest decimal text of a floating point number.

Of all decimals that round to the number, those with the fewest digits are taken, and of these the
one nearest to it. The search tries one digit, two digits, and so on; on each grid only the two
neighbours of the value can be the nearest, and comparisons are exact.
-/
set_option autoImplicit false

namespace Weaver.Number

/-- A positive decimal `0.d₁d₂…dₙ · 10 ^ point`, given by its digits as one natural number. -/
structure Decimal where
  digits : Nat
  count : Nat
  point : Int
deriving Repr, DecidableEq

namespace Shortest

/-- The reals that round to `m · 2 ^ e`, all doubled twice: lower end, value and upper end are
`lo`, `mid` and `hi` over the denominator `den`; the ends belong to them if `m` is even. -/
structure Interval where
  lo : Nat
  mid : Nat
  hi : Nat
  den : Nat
  closed : Bool

/-- The interval of the finite number `m · 2 ^ e`. Below a power of two the numbers lie twice as
close, so the lower half of the gap is halved there. -/
def Interval.of (f : Format) (m : Nat) (e : Int) : Interval :=
  let below := if m == Nat.pow 2 (f.precision - 1) && f.minExp < e then 1 else 2
  let (k, den) := if 0 ≤ e then (Nat.pow 2 e.toNat, 4) else (1, 4 * Nat.pow 2 (-e).toNat)
  ⟨(4 * m - below) * k, 4 * m * k, (4 * m + 2) * k, den, m % 2 == 0⟩

/-- `d · 10 ^ u` lies in the interval. -/
def Interval.contains (i : Interval) (d : Nat) (u : Int) : Bool :=
  let (n, k) := if 0 ≤ u then (d * Nat.pow 10 u.toNat * i.den, 1)
    else (d * i.den, Nat.pow 10 (-u).toNat)
  if i.closed then i.lo * k ≤ n && n ≤ i.hi * k else i.lo * k < n && n < i.hi * k

/-- The least `k` with `num / den < 10 ^ k`, found from a guess that is at most two off. -/
def pointOf (num den : Nat) : Int :=
  let bits : Int := (num.log2 : Int) - (den.log2 : Int)
  let guess : Int := (bits * 30103) / 100000
  let below (k : Int) : Bool :=
    if 0 ≤ k then num < den * Nat.pow 10 k.toNat else num * Nat.pow 10 (-k).toNat < den
  if below (guess - 1) then guess - 1
  else if below guess then guess
  else if below (guess + 1) then guess + 1
  else guess + 2

/-- The decimal of `n` digits nearest to the value, if it rounds to it. A value halfway between
two decimals takes the even one. -/
def candidate (i : Interval) (point : Int) (n : Nat) : Option Nat :=
  let u : Int := point - n
  let (num, den) :=
    if 0 ≤ u then (i.mid, i.den * Nat.pow 10 u.toNat)
    else (i.mid * Nat.pow 10 (-u).toNat, i.den)
  let d := num / den
  let near := Floating.roundHalfEven num den
  let far := if near == d then d + 1 else d
  if i.contains near u then some near
  else if i.contains far u then some far
  else none

/-- Tries `n`, `n + 1`, … digits, as many as there is fuel. -/
def search (i : Interval) (point : Int) : Nat → Nat → Decimal
  | 0, n => ⟨0, n, point⟩
  | fuel + 1, n =>
    match candidate i point n with
    | some d => if d == Nat.pow 10 n then ⟨1, 1, point + 1⟩ else ⟨d, n, point⟩
    | none => search i point fuel (n + 1)

/-- The digits without trailing zeros. -/
def trimZeros : Nat → Decimal → Decimal
  | 0, d => d
  | fuel + 1, d =>
    if d.digits % 10 == 0 && 1 < d.count then
      trimZeros fuel ⟨d.digits / 10, d.count - 1, d.point⟩
    else d

end Shortest

/-- The shortest decimal of the nonzero number `m · 2 ^ e`. Eighteen digits tell any two numbers of
64 bits apart. -/
def shortest (f : Format) (m : Nat) (e : Int) : Decimal :=
  let i := Shortest.Interval.of f m e
  Shortest.trimZeros 18 (Shortest.search i (Shortest.pointOf i.mid i.den) 18 1)

namespace Floating

/-- A number of at least two digits. -/
def twoDigits (n : Nat) : String :=
  if n < 10 then "0" ++ toString n else toString n

/-- Digits with a power of ten: one digit, the others after a point, sign and exponent. -/
def scientific (digits : List Char) (exponent : Int) : String :=
  let tail := match digits.drop 1 with
    | [] => ""
    | more => "." ++ String.ofList more
  let sign := if exponent < 0 then "-" else "+"
  String.ofList (digits.take 1) ++ tail ++ "e" ++ sign ++ twoDigits exponent.natAbs

/-- Digits in positional notation, the decimal point after `point` of them. -/
def positional (digits : List Char) (point : Int) : String :=
  let n := digits.length
  if point ≤ 0 then
    "0." ++ String.ofList (List.replicate (-point).toNat '0' ++ digits)
  else if point.toNat < n then
    String.ofList (digits.take point.toNat) ++ "." ++ String.ofList (digits.drop point.toNat)
  else String.ofList (digits ++ List.replicate (point.toNat - n) '0')

/-- The text of a number: positional for exponents from -4 to 5, else with a power of ten. -/
def text (f : Format) : Floating → String
  | nan => "NaN"
  | infinite negative => if negative then "-Inf" else "+Inf"
  | finite negative m e =>
    let sign := if negative then "-" else ""
    if m == 0 then sign ++ "0"
    else
      let d := shortest f m e
      let digits := (toString d.digits).toList
      let exponent := d.point - 1
      sign ++ if exponent < -4 || 6 ≤ exponent then scientific digits exponent
        else positional digits d.point

/-- The text of a number without a power of ten. -/
def plainText (f : Format) : Floating → String
  | finite negative m e =>
    let sign := if negative then "-" else ""
    if m == 0 then sign ++ "0"
    else
      let d := shortest f m e
      sign ++ positional (toString d.digits).toList d.point
  | x => x.text f

end Floating

end Weaver.Number
