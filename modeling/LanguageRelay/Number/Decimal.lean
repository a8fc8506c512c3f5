import LanguageRelay.Number.Double
import LanguageRelay.Text.Numeral
/-!
# Decimal text of numbers

`Decimal.shortest` finds the fewest decimal digits that read back as the
same double, the nearest of those; `Decimal.rounded` a fixed number of
significant digits. `Layout` says how digits are set: when a power of ten is
written out, and whether an integral value keeps a fraction.
-/

namespace LanguageRelay

/-- The digits of a positive number and the place of its decimal point: the
value is `0.d₁d₂… * 10 ^ point`. -/
structure Decimal where
  digits : List Char
  point : Int
deriving DecidableEq, Repr

namespace Decimal

/-- The decimal digits of a natural number. -/
def digitsOf (n : Nat) : List Char := Numeral.digits n

/-- `digits * 10 ^ power` without its trailing zeros. -/
def ofDigits (digits : Nat) (power : Int) : Decimal :=
  let ds := digitsOf digits
  let kept := (ds.reverse.dropWhile (· == '0')).reverse
  { digits := if kept.isEmpty then ['0'] else kept, point := power + ds.length }

/-- The largest `k` with `10 ^ k ≤ num / den`, for a positive quotient. -/
def power10 (num den : Nat) : Int :=
  if den ≤ num then
    ((digitsOf (num / den)).length : Int) - 1
  else
    let q := (digitsOf (den / num)).length
    if num * Nat.pow 10 (q - 1) = den then -(((q - 1 : Nat)) : Int) else -(q : Int)

/-- `num / den` measured in units of `10 ^ power`. -/
def inUnits (num den : Nat) (power : Int) : Nat × Nat :=
  if 0 ≤ power then (num, den * Nat.pow 10 power.toNat) else (num * Nat.pow 10 (-power).toNat, den)

/-- A candidate on the grid of `10 ^ power` reads back as the double whose
neighbourhood is `low / den … high / den` (the ends included when `closed`). -/
def readsBack (low high den : Nat) (closed : Bool) (power : Int) (candidate : Nat) : Bool :=
  let (l, d) := inUnits low den power
  let (h, _) := inUnits high den power
  if closed then l ≤ candidate * d && candidate * d ≤ h
  else l < candidate * d && candidate * d < h

/-- The nearest grid neighbour of `mid / den` that reads back, if one does. -/
def onGrid? (low mid high den : Nat) (closed : Bool) (power : Int) : Option Nat :=
  let (n, d) := inUnits mid den power
  let below := n / d
  let hitBelow := readsBack low high den closed power below && below != 0
  let hitAbove := readsBack low high den closed power (below + 1)
  match hitBelow, hitAbove with
  | true, true => some (Double.roundDiv n d)
  | true, false => some below
  | false, true => some (below + 1)
  | false, false => none

/-- Tries grids of one digit more each time. -/
def searchGrid (low mid high den : Nat) (closed : Bool) : Nat → Int → Decimal
  | 0, power => ofDigits (Double.roundDiv (inUnits mid den power).1 (inUnits mid den power).2) power
  | tries + 1, power =>
    match onGrid? low mid high den closed power with
    | some n => ofDigits n power
    | none => searchGrid low mid high den closed tries (power - 1)

/-- The fewest digits that read back as `m * 2 ^ e`, the nearest of those. -/
def shortest (m : Nat) (e : Int) : Decimal :=
  if m = 0 then { digits := ['0'], point := 1 }
  else
    let narrow := m = Double.leastMantissa ∧ Double.minExponent < e
    let (mid, den) := Double.magnitude (4 * m) (e - 2)
    let (high, _) := Double.magnitude (4 * m + 2) (e - 2)
    let (low, _) := Double.magnitude (if narrow then 4 * m - 1 else 4 * m - 2) (e - 2)
    searchGrid low mid high den (m % 2 = 0) 17 (power10 mid den)

/-- `count` significant digits of `m * 2 ^ e`, a half going to the even
digit, without trailing zeros. -/
def rounded (count : Nat) (m : Nat) (e : Int) : Decimal :=
  if m = 0 then { digits := ['0'], point := 1 }
  else
    let (num, den) := Double.magnitude m e
    let power := power10 num den - (count : Int) + 1
    let (n, d) := inUnits num den power
    ofDigits (Double.roundDiv n d) power

/-- How digits are set. -/
structure Layout where
  /-- A point at or below this place is written with a power of ten. -/
  leastPoint : Int
  /-- A point above this place is written with a power of ten. -/
  greatestPoint : Int
  /-- An integral value keeps a fraction of one zero. -/
  keepFraction : Bool
deriving DecidableEq, Repr

namespace Layout

/-- Numbers as values show them: positional from `0.0001` up to seventeen
digits, always with a fraction. -/
def value : Layout := ⟨-4, 16, true⟩

/-- Numbers as messages show them: six digits, positional from `0.0001` up to
six digits, a fraction only where there is one. -/
def message : Layout := ⟨-4, 6, false⟩

/-- A power of ten: its sign and at least two digits. -/
def power (n : Int) : List Char :=
  let ds := digitsOf n.natAbs
  'e' :: (if n < 0 then '-' else '+') :: (if ds.length < 2 then '0' :: ds else ds)

/-- The digits with a point, or with a power of ten. -/
def write (layout : Layout) (d : Decimal) : List Char :=
  let n : Int := d.digits.length
  if layout.leastPoint < d.point ∧ d.point ≤ layout.greatestPoint then
    if d.point ≤ 0 then
      '0' :: '.' :: (List.replicate (-d.point).toNat '0' ++ d.digits)
    else if n ≤ d.point then
      d.digits ++ List.replicate (d.point - n).toNat '0'
        ++ (if layout.keepFraction then ['.', '0'] else [])
    else
      d.digits.take d.point.toNat ++ '.' :: d.digits.drop d.point.toNat
  else
    match d.digits with
    | [] => []
    | [x] => x :: power (d.point - 1)
    | x :: rest => x :: '.' :: (rest ++ power (d.point - 1))

end Layout

end Decimal

namespace Double

/-- A sign before the digits of a negative number. -/
def signed (negative : Bool) (text : List Char) : List Char :=
  if negative then '-' :: text else text

/-- The shortest text that reads back. -/
def text : Double → String
  | nan => "nan"
  | infinite negative => if negative then "-inf" else "inf"
  | finite negative m e =>
    String.ofList (signed negative (Decimal.Layout.value.write (Decimal.shortest m e)))

/-- Six significant digits, as messages give durations. -/
def brief : Double → String
  | nan => "nan"
  | infinite negative => if negative then "-inf" else "inf"
  | finite negative m e =>
    String.ofList (signed negative (Decimal.Layout.message.write (Decimal.rounded 6 m e)))

end Double

end LanguageRelay
