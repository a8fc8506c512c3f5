import LanguageRelay.Json.Value
import LanguageRelay.Text.Casing
/-!
# Lenient fields

The fields of an envelope are read with some lenience: an integer may be
given as a truth value, as a double without fraction or as a numeral, and a
truth value as a number or a word. Texts must be texts. A field that is not
there may have a default; a field that is there and null has none.
-/

namespace LanguageRelay

namespace Json

/-- A numeral without a fraction of zeros. -/
def dropZeroFraction (text : List Char) : List Char :=
  let whole := text.takeWhile (· != '.')
  if (text.drop (whole.length + 1)).all (· == '0') then whole else text

/-- The text after the zeros that lead, and the underscores within and after
them. -/
def dropZeros (text : List Char) : List Char :=
  if text.head? == some '0' then text.dropWhile fun c => c == '0' || c == '_' else text

/-- ASCII digits with single underscores between them. -/
def unsignedNumeral? (text : List Char) : Option Nat :=
  let body := dropZeroFraction text
  let rest := dropZeros body
  let plain := rest.filter (· != '_')
  if rest.isEmpty then (if body.getLast? == some '0' then some 0 else none)
  else if rest.head? == some '_' || rest.getLast? == some '_' then none
  else if (splitAll (· == '_') rest).any List.isEmpty then none
  else if plain.all Numeral.isDigit && plain.length ≤ Numeral.maxDigits then
    some (Numeral.value plain)
  else none

/-- An integer numeral: blanks around, one sign. -/
def numeral? (text : List Char) : Option Int :=
  match Numeral.trimSpace text with
  | '-' :: rest => (unsignedNumeral? rest).map fun n => -(n : Int)
  | '+' :: rest => (unsignedNumeral? rest).map fun n => (n : Int)
  | rest => (unsignedNumeral? rest).map fun n => (n : Int)

/-- The bound of the integers that doubles are read as. -/
def doubleBound : Int := 9223372036854775808

/-- The integer a lenient field holds. -/
def lenientInt? : Json → Option Int
  | bool b => some (if b then 1 else 0)
  | int n => some n
  | float x =>
    match x.toInt? with
    | some n =>
      if -doubleBound < n ∧ n ≤ doubleBound then some (min n (doubleBound - 1)) else none
    | none => none
  | str s => numeral? s.toList
  | _ => none

/-- The words for false. -/
def falseWords : List String := ["0", "off", "f", "false", "n", "no"]

/-- The words for true. -/
def trueWords : List String := ["1", "on", "t", "true", "y", "yes"]

/-- The truth value of a word, in any mix of ASCII capitals and small
letters. -/
def boolOfWord? (s : String) : Option Bool :=
  let w := String.ofList (s.toList.map asciiLowercase)
  if falseWords.contains w then some false
  else if trueWords.contains w then some true
  else none

/-- The truth value of zero and one. -/
def boolOfInt? (n : Int) : Option Bool :=
  if n = 0 then some false else if n = 1 then some true else none

/-- The truth value a lenient field holds. -/
def lenientBool? : Json → Option Bool
  | bool b => some b
  | int n => boolOfInt? n
  | float x => x.toInt?.bind boolOfInt?
  | str s => boolOfWord? s
  | _ => none

/-- A field that must be there. -/
def required (read : Json → Option α) (v : Json) (key : String) : Option α :=
  (v.get? key).bind read

/-- A field with a default for when it is not there. -/
def defaulted (read : Json → Option α) (default : α) (v : Json) (key : String) : Option α :=
  match v.get? key with
  | none => some default
  | some x => read x

/-- A field that may be missing or null. -/
def optional (read : Json → Option α) (v : Json) (key : String) : Option (Option α) :=
  match v.get? key with
  | none => some none
  | some .null => some none
  | some x => (read x).map some

end Json

end LanguageRelay
