import LanguageRelay.Json.Value
/-!
# Reading JSON

A strict reader: control characters in strings, a byte-order mark and
anything after the value are faults. A key that comes twice keeps its first
place and its last value. Besides the standard it knows the three names of
doubles that are no numbers.

A text is a row of Unicode characters, and half of a surrogate pair is none. Where
an escape gives one without the other the replacement character stands for it
(`unitChar`), and what was there cannot be told apart any more: nothing here speaks
of texts with lone surrogates.
-/

namespace LanguageRelay

namespace Json

/-- Why a text could not be read. -/
inductive ReadFault where
  /-- The text is no JSON. -/
  | malformed
  /-- An integer has more digits than are converted. -/
  | tooManyDigits
deriving DecidableEq, Repr

/-- The blanks between tokens. -/
def isSpace (c : Char) : Bool := c == ' ' || c == '\t' || c == '\n' || c == '\r'

/-- The text without the blanks it begins with. -/
def skipSpace (text : List Char) : List Char := text.dropWhile isSpace

/-- The value of a hexadecimal digit. -/
def hexValue? (c : Char) : Option Nat :=
  if '0' ≤ c && c ≤ '9' then some (c.toNat - 48)
  else if 'a' ≤ c && c ≤ 'f' then some (c.toNat - 87)
  else if 'A' ≤ c && c ≤ 'F' then some (c.toNat - 55)
  else none

/-- The value of four hexadecimal digits. -/
def hex4? (a b c d : Char) : Option Nat := do
  let a ← hexValue? a
  let b ← hexValue? b
  let c ← hexValue? c
  let d ← hexValue? d
  return ((a * 16 + b) * 16 + c) * 16 + d

/-- The character a short escape stands for. -/
def shortEscape? (c : Char) : Option Char :=
  if c == '"' || c == '\\' || c == '/' then some c
  else if c == 'b' then some '\x08'
  else if c == 'f' then some '\x0c'
  else if c == 'n' then some '\n'
  else if c == 'r' then some '\r'
  else if c == 't' then some '\t'
  else none

/-- The first of two surrogates. -/
def isHighSurrogate (n : Nat) : Bool := 0xd800 ≤ n && n < 0xdc00

/-- The second of two surrogates. -/
def isLowSurrogate (n : Nat) : Bool := 0xdc00 ≤ n && n < 0xe000

/-- The character of a code unit; a surrogate alone shows as the replacement
character. -/
def unitChar (n : Nat) : Char :=
  if isHighSurrogate n || isLowSurrogate n then '\ufffd' else Char.ofNat n

/-- The rest of a string after its opening quote, and what follows its
closing quote. `high` is a first surrogate still waiting for its second. -/
def readStringFrom (high : Option Nat) (acc : List Char) :
    List Char → Option (List Char × List Char)
  | [] => none
  | '\\' :: 'u' :: a :: b :: c :: d :: rest =>
    match hex4? a b c d with
    | none => none
    | some n =>
      match high with
      | some h =>
        if isLowSurrogate n then
          readStringFrom none (Char.ofNat (0x10000 + (h - 0xd800) * 0x400 + (n - 0xdc00)) :: acc)
            rest
        else if isHighSurrogate n then readStringFrom (some n) ('\ufffd' :: acc) rest
        else readStringFrom none (Char.ofNat n :: '\ufffd' :: acc) rest
      | none =>
        if isHighSurrogate n then readStringFrom (some n) acc rest
        else readStringFrom none (unitChar n :: acc) rest
  | c :: rest =>
    let acc := if high.isSome then '\ufffd' :: acc else acc
    if c == '"' then some (acc.reverse, rest)
    else if c == '\\' then
      match rest with
      | [] => none
      | e :: rest =>
        match shortEscape? e with
        | some x => readStringFrom none (x :: acc) rest
        | none => none
    else if c.toNat < 0x20 then none
    else readStringFrom none (c :: acc) rest

/-- The rest of a string after its opening quote, and what follows its
closing quote. -/
def readString (text : List Char) : Except ReadFault (String × List Char) :=
  match readStringFrom none [] text with
  | some (s, rest) => .ok (String.ofList s, rest)
  | none => .error .malformed

/-- The parts of a numeral: its sign, the digits before the point, those
after it and the power of ten, the latter two only where written. -/
structure Numerals where
  negative : Bool
  whole : List Char
  fraction : Option (List Char)
  power : Option Int
deriving DecidableEq, Repr

/-- A fraction, if a point and a digit come next. -/
def readFraction : List Char → Option (List Char) × List Char
  | '.' :: rest =>
    let ds := rest.takeWhile Numeral.isDigit
    if ds.isEmpty then (none, '.' :: rest) else (some ds, rest.dropWhile Numeral.isDigit)
  | text => (none, text)

/-- A power of ten without its letter, if a digit comes next. -/
def readPowerDigits (negative : Bool) (text : List Char) : Option (Int × List Char) :=
  let ds := text.takeWhile Numeral.isDigit
  if ds.isEmpty then none
  else
    let n : Int := Numeral.value ds
    some (if negative then -n else n, text.dropWhile Numeral.isDigit)

/-- A power of ten, if one comes next. -/
def readPower (text : List Char) : Option Int × List Char :=
  let powerAfter : List Char → Option (Int × List Char)
    | '-' :: rest => readPowerDigits true rest
    | '+' :: rest => readPowerDigits false rest
    | rest => readPowerDigits false rest
  match text with
  | c :: rest =>
    if c == 'e' || c == 'E' then
      match powerAfter rest with
      | some (n, rest) => (some n, rest)
      | none => (none, text)
    else (none, text)
  | [] => (none, [])

/-- The digits before the point: a single zero, or digits without a leading
one. -/
def readWhole : List Char → Option (List Char × List Char)
  | '0' :: rest => some (['0'], rest)
  | text =>
    let ds := text.takeWhile Numeral.isDigit
    if ds.isEmpty then none else some (ds, text.dropWhile Numeral.isDigit)

/-- A numeral. -/
def readNumerals (text : List Char) : Option (Numerals × List Char) :=
  let (negative, body) : Bool × List Char :=
    match text with
    | '-' :: rest => (true, rest)
    | _ => (false, text)
  match readWhole body with
  | none => none
  | some (whole, rest) =>
    let (fraction, rest) := readFraction rest
    let (power, rest) := readPower rest
    some (⟨negative, whole, fraction, power⟩, rest)

/-- The value of a numeral: an integer if it has neither fraction nor power. -/
def Numerals.toJson (n : Numerals) : Except ReadFault Json :=
  match n.fraction, n.power with
  | none, none =>
    if Numeral.maxDigits < n.whole.length then .error .tooManyDigits
    else
      let v : Int := Numeral.value n.whole
      .ok (.int (if n.negative then -v else v))
  | fraction, power =>
    let fraction := fraction.getD []
    .ok (.float (Double.ofDecimal n.negative (Numeral.value (n.whole ++ fraction))
      (power.getD 0 - fraction.length)))

/-- A number, or one of the names of doubles that are no numbers. -/
def readNumber (text : List Char) : Except ReadFault (Json × List Char) :=
  match text with
  | 'N' :: 'a' :: 'N' :: rest => .ok (.float .nan, rest)
  | 'I' :: 'n' :: 'f' :: 'i' :: 'n' :: 'i' :: 't' :: 'y' :: rest =>
    .ok (.float (.infinite false), rest)
  | '-' :: 'I' :: 'n' :: 'f' :: 'i' :: 'n' :: 'i' :: 't' :: 'y' :: rest =>
    .ok (.float (.infinite true), rest)
  | _ =>
    match readNumerals text with
    | none => .error .malformed
    | some (n, rest) => n.toJson.map fun v => (v, rest)

mutual

/-- The value a text begins with, and what follows it. The first argument
bounds the number of values read. -/
def readValue : Nat → List Char → Except ReadFault (Json × List Char)
  | 0, _ => .error .malformed
  | fuel + 1, text =>
    match text with
    | '"' :: rest => (readString rest).map fun (s, rest) => (.str s, rest)
    | '\x7b' :: rest =>
      match skipSpace rest with
      | '\x7d' :: rest => .ok (.obj [], rest)
      | rest => readMembers fuel [] rest
    | '[' :: rest =>
      match skipSpace rest with
      | ']' :: rest => .ok (.arr [], rest)
      | rest => readItems fuel [] rest
    | 'n' :: 'u' :: 'l' :: 'l' :: rest => .ok (.null, rest)
    | 't' :: 'r' :: 'u' :: 'e' :: rest => .ok (.bool true, rest)
    | 'f' :: 'a' :: 'l' :: 's' :: 'e' :: rest => .ok (.bool false, rest)
    | _ => readNumber text

/-- The items of an array up to its closing bracket; `acc` holds those read,
the last one first. -/
def readItems : Nat → List Json → List Char → Except ReadFault (Json × List Char)
  | 0, _, _ => .error .malformed
  | fuel + 1, acc, text =>
    match readValue fuel text with
    | .error e => .error e
    | .ok (v, rest) =>
      match skipSpace rest with
      | ']' :: rest => .ok (.arr (v :: acc).reverse, rest)
      | ',' :: rest => readItems fuel (v :: acc) (skipSpace rest)
      | _ => .error .malformed

/-- The members of an object up to its closing brace. -/
def readMembers : Nat → Fields → List Char → Except ReadFault (Json × List Char)
  | 0, _, _ => .error .malformed
  | fuel + 1, acc, text =>
    match text with
    | '"' :: rest =>
      match readString rest with
      | .error e => .error e
      | .ok (key, rest) =>
        match skipSpace rest with
        | ':' :: rest =>
          match readValue fuel (skipSpace rest) with
          | .error e => .error e
          | .ok (v, rest) =>
            match skipSpace rest with
            | '\x7d' :: rest => .ok (.obj (Table.put key v acc), rest)
            | ',' :: rest => readMembers fuel (Table.put key v acc) (skipSpace rest)
            | _ => .error .malformed
        | _ => .error .malformed
    | _ => .error .malformed

end

/-- The value a text holds, with blanks around it allowed. -/
def read (text : List Char) : Except ReadFault Json :=
  match readValue (2 * text.length + 2) (skipSpace text) with
  | .error e => .error e
  | .ok (v, rest) => if (skipSpace rest).isEmpty then .ok v else .error .malformed

end Json

end LanguageRelay
