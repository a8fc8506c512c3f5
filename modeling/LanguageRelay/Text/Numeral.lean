import LanguageRelay.Text.Blank
/-!
# Numerals

Decimal numerals as programs write them (`digits`, `showInt`), and as people
do (`readInt?`): blanks around, one sign, digits of any script, single
underscores between digits.
-/

namespace LanguageRelay

namespace Numeral

/-- The character of a decimal digit. -/
def digitChar (d : Nat) : Char := Char.ofNat (48 + d)

/-- The decimal digits of a natural number. -/
def digits (n : Nat) : List Char :=
  if n < 10 then [digitChar n] else digits (n / 10) ++ [digitChar (n % 10)]

/-- An ASCII decimal digit. -/
def isDigit (c : Char) : Bool := '0' ≤ c && c ≤ '9'

/-- The number a row of ASCII digits denotes. -/
def value (ds : List Char) : Nat := ds.foldl (fun v c => 10 * v + (c.toNat - 48)) 0

/-- The text of an integer: its digits, after a minus sign if it is negative. -/
def showInt (n : Int) : List Char :=
  if n < 0 then '-' :: digits n.natAbs else digits n.natAbs

/-- The zeros of the decimal digit rows of all scripts (Unicode 14). -/
def zeros : List Nat :=
  [48, 1632, 1776, 1984, 2406, 2534, 2662, 2790, 2918, 3046, 3174, 3302, 3430, 3558, 3664, 3792,
   3872, 4160, 4240, 6112, 6160, 6470, 6608, 6784, 6800, 6992, 7088, 7232, 7248, 42528, 43216,
   43264, 43472, 43504, 43600, 44016, 65296, 66720, 68912, 69734, 69872, 69942, 70096, 70384,
   70736, 70864, 71248, 71360, 71472, 71904, 72016, 72784, 73040, 73120, 92768, 92864, 93008,
   120782, 120792, 120802, 120812, 120822, 123200, 123632, 125264, 130032]

/-- The value of a decimal digit of any script. -/
def digitValue? (c : Char) : Option Nat :=
  (zeros.find? fun z => z ≤ c.toNat && c.toNat ≤ z + 9).map (c.toNat - ·)

/-- The blanks that may stand around a numeral: all but the separators of
files, groups, records and units. -/
def isSpace (c : Char) : Bool := isBlank c && !(0x1c ≤ c.toNat && c.toNat ≤ 0x1f)

/-- A text without the blanks around it that may stand around a numeral. -/
def trimSpace (text : List Char) : List Char :=
  ((text.dropWhile isSpace).reverse.dropWhile isSpace).reverse

/-- Digits with single underscores between them. `afterDigit` says that an
underscore may come next. -/
def readDigits (afterDigit : Bool) (sofar : Nat) : List Char → Option Nat
  | [] => if afterDigit then some sofar else none
  | c :: rest =>
    if c == '_' then if afterDigit then readDigits false sofar rest else none
    else
      match digitValue? c with
      | some d => readDigits true (10 * sofar + d) rest
      | none => none

/-- The most digits a numeral may have. -/
def maxDigits : Nat := 4300

/-- The integer a text denotes. -/
def readInt? (text : List Char) : Option Int :=
  let body := trimSpace text
  if maxDigits < (body.filter fun c => (digitValue? c).isSome).length then none
  else
    match body with
    | '-' :: rest => (readDigits false 0 rest).map fun n => -(n : Int)
    | '+' :: rest => (readDigits false 0 rest).map fun n => (n : Int)
    | _ => (readDigits false 0 body).map fun n => (n : Int)

end Numeral

end LanguageRelay
