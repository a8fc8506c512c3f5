/-!
# Double-precision numbers

A double is kept as its sign, its integral mantissa and its power of two,
so that every question about it is a question about integers.
`Double.ofRatio` rounds an exact quotient to the nearest double, a half
going to the even mantissa; `Double.ofDecimal` reads a decimal numeral by
way of it.
-/

namespace LanguageRelay

/-- A double-precision number. The value of `finite negative m e` is
`m * 2 ^ e`, negated when `negative` holds. -/
inductive Double where
  | nan
  | infinite (negative : Bool)
  | finite (negative : Bool) (mantissa : Nat) (exponent : Int)
deriving DecidableEq, Repr, Inhabited

namespace Double

/-- The quotient `num / den` rounded to the nearest integer, a half going to
the even one. -/
def roundDiv (num den : Nat) : Nat :=
  let q := num / den
  let twice := 2 * (num % den)
  if twice < den then q
  else if den < twice then q + 1
  else if q % 2 = 0 then q else q + 1

/-- `num / (den * 2 ^ e)` as a quotient of natural numbers. -/
def scaleDown (num den : Nat) (e : Int) : Nat × Nat :=
  if 0 ≤ e then (num, den * Nat.pow 2 e.toNat) else (num * Nat.pow 2 (-e).toNat, den)

/-- The least mantissa of 53 bits: `2 ^ 52`. -/
def leastMantissa : Nat := 4503599627370496

/-- The least exponent a finite double can have. -/
def minExponent : Int := -1074

/-- The greatest exponent a finite double can have. -/
def maxExponent : Int := 971

/-- The exponent at which `num / den` has a mantissa of 53 bits, no lower
than `minExponent`. -/
def exponentFor (num den : Nat) : Int :=
  let guess : Int := (num.log2 : Int) - (den.log2 : Int) - 52
  let (n, d) := scaleDown num den guess
  let e := if n < d * leastMantissa then guess - 1 else guess
  max e minExponent

/-- The double nearest to `num / den`, with the given sign. -/
def ofRatio (negative : Bool) (num den : Nat) : Double :=
  if num = 0 then finite negative 0 0
  else
    let e := exponentFor num den
    let (n, d) := scaleDown num den e
    let m := roundDiv n d
    let (m, e) := if m = 2 * leastMantissa then (leastMantissa, e + 1) else (m, e)
    if maxExponent < e then infinite negative
    else if m = 0 then finite negative 0 0
    else finite negative m e

/-- The double nearest to `digits * 10 ^ power`. Powers far beyond the range
of doubles are settled without computing them. -/
def ofDecimal (negative : Bool) (digits : Nat) (power : Int) : Double :=
  if digits = 0 then finite negative 0 0
  else if 400 < power then infinite negative
  else if power + 400 + digits.log2 < 0 then finite negative 0 0
  else if 0 ≤ power then ofRatio negative (digits * Nat.pow 10 power.toNat) 1
  else ofRatio negative digits (Nat.pow 10 (-power).toNat)

/-- Neither infinite nor NaN. -/
def isFinite : Double → Bool
  | finite _ _ _ => true
  | _ => false

/-- The magnitude of a finite double as a quotient. -/
def magnitude (mantissa : Nat) (exponent : Int) : Nat × Nat :=
  if 0 ≤ exponent then (mantissa * Nat.pow 2 exponent.toNat, 1)
  else (mantissa, Nat.pow 2 (-exponent).toNat)

/-- The integral part, toward zero. Infinities and NaN have none. -/
def truncate? : Double → Option Int
  | nan => none
  | infinite _ => none
  | finite negative m e =>
    let (n, d) := magnitude m e
    let q : Int := (n / d : Nat)
    some (if negative then -q else q)

/-- The integer a double is, if it is one. -/
def toInt? : Double → Option Int
  | nan => none
  | infinite _ => none
  | finite negative m e =>
    let (n, d) := magnitude m e
    if n % d = 0 then
      let q : Int := (n / d : Nat)
      some (if negative then -q else q)
    else none

/-- Zero of either sign. -/
def isZero : Double → Bool
  | finite _ m _ => m == 0
  | _ => false

end Double

end LanguageRelay
