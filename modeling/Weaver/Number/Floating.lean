/-!
Binary floating point numbers as exact values.

A finite number is `m · 2 ^ e` with a sign; a format bounds `m` and `e`. Rounding takes an exact
quotient of natural numbers to the nearest number of the format, a half going to the even
neighbour, so nothing here depends on the arithmetic of the machine.
-/
set_option autoImplicit false

namespace Weaver.Number

/-- A binary format: significands below `2 ^ precision`, exponents from `minExp` to `maxExp`. -/
structure Format where
  precision : Nat
  minExp : Int
  maxExp : Int
deriving Repr, DecidableEq

/-- The format of 64 bit numbers. -/
def Format.double : Format := ⟨53, -1074, 971⟩

/-- The format of 32 bit numbers. -/
def Format.single : Format := ⟨24, -149, 104⟩

/-- A floating point number: a signed `m · 2 ^ e`, an infinity, or no number. -/
inductive Floating where
  | finite (negative : Bool) (m : Nat) (e : Int)
  | infinite (negative : Bool)
  | nan
deriving Repr, DecidableEq, Inhabited

namespace Floating

/-- Zero. -/
def zero : Floating := finite false 0 0

/-- `x / 2 ^ e` as a quotient of natural numbers, for the quotient `num / den`. -/
def scale (num den : Nat) (e : Int) : Nat × Nat :=
  if 0 ≤ e then (num, den * Nat.pow 2 e.toNat) else (num * Nat.pow 2 (-e).toNat, den)

/-- The natural number nearest to `num / den`; a half goes to the even neighbour. -/
def roundHalfEven (num den : Nat) : Nat :=
  let q := num / den
  let r := num % den
  if 2 * r < den then q
  else if den < 2 * r then q + 1
  else if q % 2 == 0 then q else q + 1

/-- The exponent at which `num / den` has exactly the format's number of significant bits, or the
least exponent of the format if that is larger. -/
def exponentFor (f : Format) (num den : Nat) : Int :=
  let guess : Int := (num.log2 : Int) - (den.log2 : Int) - f.precision
  let (n, d) := scale num den guess
  let e := if Nat.pow 2 f.precision ≤ n / d then guess + 1 else guess
  max e f.minExp

/-- The number of the format nearest to `num / den`, with the given sign. -/
def ofQuotient (f : Format) (negative : Bool) (num den : Nat) : Floating :=
  if num == 0 then finite negative 0 0
  else
    let e := exponentFor f num den
    let (n, d) := scale num den e
    let m := roundHalfEven n d
    let (m, e) := if m == Nat.pow 2 f.precision then (m / 2, e + 1) else (m, e)
    if f.maxExp < e then infinite negative
    else if m == 0 then finite negative 0 0
    else finite negative m e

/-- The number of the format nearest to a number of another format. -/
def convert (f : Format) : Floating → Floating
  | finite negative m e =>
    if 0 ≤ e then ofQuotient f negative (m * Nat.pow 2 e.toNat) 1
    else ofQuotient f negative m (Nat.pow 2 (-e).toNat)
  | other => other

/-- The number of the format nearest to an integer. -/
def ofInt (f : Format) (n : Int) : Floating :=
  ofQuotient f (n < 0) n.natAbs 1

/-- The number with the other sign. -/
def neg : Floating → Floating
  | finite negative m e => finite (!negative) m e
  | infinite negative => infinite (!negative)
  | nan => nan

end Floating

end Weaver.Number
