import LanguageRelay.Config.Setting
import LanguageRelay.Json.Reader
/-!
# Scanning TOML

The parts of a TOML text that hold no other values: blanks and comments,
keys, strings, dates and times, and numbers. Each scanner takes a text and
gives what it read and the rest of the text.
-/

namespace LanguageRelay

namespace Toml

/-- Why a text is not read. -/
inductive Fault where
  /-- It is no TOML. -/
  | malformed
  /-- A decimal integer has more digits than are read. -/
  | tooManyDigits
deriving DecidableEq, Repr

/-- What was read and the rest of the text. -/
abbrev Scanned (α : Type) := Except Fault (α × List Char)

/-! ## Blanks and comments -/

/-- A blank within a line. -/
def isSpace (c : Char) : Bool := c == ' ' || c == '\t'

/-- A blank, or the end of a line. -/
def isGap (c : Char) : Bool := isSpace c || c == '\n'

/-- The text after the blanks of its line. -/
def skipSpace (text : List Char) : List Char := text.dropWhile isSpace

/-- A character that no line may hold as it is. -/
def isControl (c : Char) : Bool := (c.toNat < 32 && c != '\t') || c.toNat == 127

/-- The text after a comment, if it begins with one. -/
def skipComment (text : List Char) : Except Fault (List Char) :=
  match text with
  | '#' :: rest =>
    if (rest.takeWhile (· != '\n')).any isControl then .error .malformed
    else .ok (rest.dropWhile (· != '\n'))
  | _ => .ok text

/-- The text after blanks, ends of lines and comments. -/
def skipGap : Nat → List Char → Except Fault (List Char)
  | 0, text => .ok text
  | fuel + 1, text =>
    match text.dropWhile isGap with
    | '#' :: rest =>
      match skipComment ('#' :: rest) with
      | .error e => .error e
      | .ok text => skipGap fuel text
    | text => .ok text

/-! ## Strings -/

/-- The code point of hexadecimal digits. -/
def hexNumber? (digits : List Char) : Option Nat :=
  digits.foldlM (fun n c => (Json.hexValue? c).map fun d => 16 * n + d) 0

/-- The character of `width` hexadecimal digits, if it is one. -/
def hexChar (width : Nat) (text : List Char) : Scanned Char :=
  let digits := text.take width
  if digits.length < width then .error .malformed
  else
    match hexNumber? digits with
    | some n =>
      if h : n.isValidChar then .ok (Char.ofNatAux n h, text.drop width) else .error .malformed
    | none => .error .malformed

/-- The character a short escape stands for. -/
def shortEscape? (c : Char) : Option Char :=
  if c == 'b' then some '\x08'
  else if c == 't' then some '\t'
  else if c == 'n' then some '\n'
  else if c == 'f' then some '\x0c'
  else if c == 'r' then some '\r'
  else if c == '"' then some '"'
  else if c == '\\' then some '\\'
  else none

/-- The character of an escape, of which the backslash was read. -/
def escape (text : List Char) : Scanned Char :=
  match text with
  | 'u' :: rest => hexChar 4 rest
  | 'U' :: rest => hexChar 8 rest
  | c :: rest =>
    match shortEscape? c with
    | some d => .ok (d, rest)
    | none => .error .malformed
  | [] => .error .malformed

/-- The text after a line that a backslash continues: the blanks that begin
the next line with text are left out as well. -/
def continueLine (text : List Char) : Except Fault (List Char) :=
  match skipSpace text with
  | [] => .ok []
  | '\n' :: rest => .ok (rest.dropWhile isGap)
  | _ => .error .malformed

/-- A string in double quotes, of which `acc` was read, the last character
first. -/
def basicString : Nat → List Char → List Char → Scanned String
  | 0, _, _ => .error .malformed
  | fuel + 1, acc, text =>
    match text with
    | [] => .error .malformed
    | '"' :: rest => .ok (String.ofList acc.reverse, rest)
    | '\\' :: rest =>
      match escape rest with
      | .error e => .error e
      | .ok (c, rest) => basicString fuel (c :: acc) rest
    | c :: rest => if isControl c then .error .malformed else basicString fuel (c :: acc) rest

/-- Up to two quotes that stand before the closing three belong to the
string. -/
def closingQuotes (quote : Char) (acc : List Char) (text : List Char) : String × List Char :=
  let extra := (text.take 2).takeWhile (· == quote)
  (String.ofList (acc.reverse ++ extra), text.drop extra.length)

/-- A string in three double quotes. -/
def basicText : Nat → List Char → List Char → Scanned String
  | 0, _, _ => .error .malformed
  | fuel + 1, acc, text =>
    match text with
    | [] => .error .malformed
    | '"' :: '"' :: '"' :: rest => .ok (closingQuotes '"' acc rest)
    | '\\' :: c :: rest =>
      if isGap c then
        match continueLine (c :: rest) with
        | .error e => .error e
        | .ok rest => basicText fuel acc rest
      else
        match escape (c :: rest) with
        | .error e => .error e
        | .ok (d, rest) => basicText fuel (d :: acc) rest
    | c :: rest =>
      if c == '\\' || (isControl c && c != '\n') then .error .malformed
      else basicText fuel (c :: acc) rest

/-- A string in single quotes: every character stands for itself. -/
def literalString (text : List Char) : Scanned String :=
  let body := text.takeWhile (· != '\'')
  match text.drop body.length with
  | _ :: rest => if body.any isControl then .error .malformed else .ok (String.ofList body, rest)
  | [] => .error .malformed

/-- A string in three single quotes, of which `acc` was read, the last
character first. -/
def literalText (acc : List Char) : List Char → Scanned String
  | [] => .error .malformed
  | '\'' :: '\'' :: '\'' :: rest => .ok (closingQuotes '\'' acc rest)
  | c :: rest =>
    if isControl c && c != '\n' then .error .malformed else literalText (c :: acc) rest

/-- The text without the end of a line at its beginning. -/
def dropLineEnd : List Char → List Char
  | '\n' :: rest => rest
  | text => text

/-- A string of any form, if the text begins with one. -/
def string? (text : List Char) : Option (Scanned String) :=
  match text with
  | '"' :: '"' :: '"' :: rest => some (basicText rest.length.succ [] (dropLineEnd rest))
  | '"' :: rest => some (basicString rest.length.succ [] rest)
  | '\'' :: '\'' :: '\'' :: rest => some (literalText [] (dropLineEnd rest))
  | '\'' :: rest => some (literalString rest)
  | _ => none

/-! ## Keys -/

/-- A character of a bare key. -/
def isBare (c : Char) : Bool :=
  ('a' ≤ c && c ≤ 'z') || ('A' ≤ c && c ≤ 'Z') || Numeral.isDigit c || c == '-' || c == '_'

/-- One part of a key. -/
def keyPart (text : List Char) : Scanned String :=
  match text with
  | '"' :: rest => basicString rest.length.succ [] rest
  | '\'' :: rest => literalString rest
  | _ =>
    let name := text.takeWhile isBare
    if name.isEmpty then .error .malformed
    else .ok (String.ofList name, text.drop name.length)

/-- The parts of a key with dots between them, and the blanks after it. -/
def keyParts : Nat → List Char → Scanned (List String)
  | 0, _ => .error .malformed
  | fuel + 1, text =>
    match keyPart text with
    | .error e => .error e
    | .ok (part, rest) =>
      match skipSpace rest with
      | '.' :: rest =>
        (keyParts fuel (skipSpace rest)).map fun (parts, rest) => (part :: parts, rest)
      | rest => .ok ([part], rest)

/-- A key. -/
def key (text : List Char) : Scanned (List String) := keyParts text.length.succ text

/-! ## Dates and times -/

/-- A number of exactly `width` digits within bounds. -/
def digitsWithin? (width low high : Nat) (text : List Char) : Option (Nat × List Char) :=
  let ds := text.take width
  if ds.length = width ∧ ds.all Numeral.isDigit ∧ low ≤ Numeral.value ds ∧ Numeral.value ds ≤ high
  then some (Numeral.value ds, text.drop width)
  else none

/-- The text after a character, if it begins with it. -/
def after? (c : Char) : List Char → Option (List Char)
  | d :: rest => if d == c then some rest else none
  | [] => none

/-- The part of a second, in millionths; digits beyond them are dropped. -/
def fraction (text : List Char) : Nat × List Char :=
  match text with
  | '.' :: rest =>
    let ds := rest.takeWhile Numeral.isDigit
    if ds.isEmpty then (0, text)
    else
      let six := ds.take 6
      (Numeral.value (six ++ List.replicate (6 - six.length) '0'), rest.drop ds.length)
  | _ => (0, text)

/-- A time of day. -/
def timeOfDay? (text : List Char) : Option (TimeOfDay × List Char) := do
  let (hour, rest) ← digitsWithin? 2 0 23 text
  let rest ← after? ':' rest
  let (minute, rest) ← digitsWithin? 2 0 59 rest
  let rest ← after? ':' rest
  let (second, rest) ← digitsWithin? 2 0 59 rest
  let (micro, rest) := fraction rest
  return (⟨hour, minute, second, micro⟩, rest)

/-- An offset in hours and minutes. -/
def offsetAfter? (sign : Int) (text : List Char) : Option (UtcOffset × List Char) := do
  let (hours, rest) ← digitsWithin? 2 0 23 text
  let rest ← after? ':' rest
  let (minutes, rest) ← digitsWithin? 2 0 59 rest
  return (⟨sign * (60 * hours + minutes : Nat)⟩, rest)

/-- An offset from universal time, if there is one. -/
def offset (text : List Char) : Option UtcOffset × List Char :=
  let found :=
    match text with
    | '+' :: rest => offsetAfter? 1 rest
    | '-' :: rest => offsetAfter? (-1) rest
    | c :: rest => if c == 'Z' || c == 'z' then some (⟨0⟩, rest) else none
    | [] => none
  match found with
  | some (o, rest) => (some o, rest)
  | none => (none, text)

/-- A date, in the calendar or not. -/
def date? (text : List Char) : Option (Date × List Char) := do
  let (year, rest) ← digitsWithin? 4 0 9999 text
  let rest ← after? '-' rest
  let (month, rest) ← digitsWithin? 2 1 12 rest
  let rest ← after? '-' rest
  let (day, rest) ← digitsWithin? 2 1 31 rest
  return (⟨year, month, day⟩, rest)

/-- The time of day after a date, if there is one. -/
def timeAfterDate? (text : List Char) : Option (TimeOfDay × List Char) :=
  match text with
  | c :: rest => if c == 'T' || c == 't' || c == ' ' then timeOfDay? rest else none
  | [] => none

/-- A date, a time, or both, if the text begins with one. -/
def moment? (text : List Char) : Option (Scanned Setting) :=
  match date? text with
  | some (date, rest) =>
    if date.isValid then
      match timeAfterDate? rest with
      | some (time, rest) =>
        let (offset, rest) := offset rest
        some (.ok (.dateTime ⟨date, time, offset⟩, rest))
      | none => some (.ok (.date date, rest))
    else some (.error .malformed)
  | none => (timeOfDay? text).map fun (time, rest) => .ok (.time time, rest)

/-! ## Numbers -/

/-- Digits of a kind with single underscores between them. -/
def digitRun (p : Char → Bool) : List Char → List Char × List Char
  | [] => ([], [])
  | c :: '_' :: rest =>
    if p c then
      match digitRun p rest with
      | ([], _) => ([c], '_' :: rest)
      | (ds, left) => (c :: ds, left)
    else ([], c :: '_' :: rest)
  | c :: rest =>
    if p c then
      let (ds, left) := digitRun p rest
      (c :: ds, left)
    else ([], c :: rest)

/-- An integer in a base of its own, of which the base was read. -/
def based? (base : Nat) (p : Char → Bool) (text : List Char) : Option (Setting × List Char) :=
  let (ds, rest) := digitRun p text
  if ds.isEmpty then none
  else some (.int (ds.foldl (fun n c => base * n + (Json.hexValue? c).getD 0) 0 : Nat), rest)

/-- An integer in base sixteen, two or eight. -/
def prefixed? (text : List Char) : Option (Setting × List Char) :=
  match text with
  | '0' :: 'x' :: rest => based? 16 (fun c => (Json.hexValue? c).isSome) rest
  | '0' :: 'b' :: rest => based? 2 (fun c => c == '0' || c == '1') rest
  | '0' :: 'o' :: rest => based? 8 (fun c => '0' ≤ c && c ≤ '7') rest
  | _ => none

/-- The digits before the point: a zero, or a run that does not begin with
one. -/
def wholeDigits (text : List Char) : List Char × List Char :=
  match text with
  | '0' :: rest => (['0'], rest)
  | _ => digitRun Numeral.isDigit text

/-- The digits after the point, if there are any. -/
def fractionDigits (text : List Char) : List Char × List Char :=
  match text with
  | '.' :: rest =>
    let (ds, left) := digitRun Numeral.isDigit rest
    if ds.isEmpty then ([], text) else (ds, left)
  | _ => ([], text)

/-- The power of ten, if there is one. -/
def power? (text : List Char) : Option (Int × List Char) :=
  match text with
  | c :: rest =>
    if c == 'e' || c == 'E' then
      let (negative, rest) :=
        match rest with
        | '-' :: more => (true, more)
        | '+' :: more => (false, more)
        | _ => (false, rest)
      let (ds, left) := digitRun Numeral.isDigit rest
      if ds.isEmpty then none
      else
        let n : Int := Numeral.value ds
        some (if negative then -n else n, left)
    else none
  | [] => none

/-- A decimal integer of which sign and digits were read. -/
def decimalInteger (negative : Bool) (ds : List Char) : Except Fault Setting :=
  if Numeral.maxDigits < ds.length then .error .tooManyDigits
  else
    let n : Int := Numeral.value ds
    .ok (.int (if negative then -n else n))

/-- A decimal number of which the sign was read. -/
def decimal? (negative : Bool) (text : List Char) : Option (Scanned Setting) :=
  let (whole, rest) := wholeDigits text
  if whole.isEmpty then none
  else
    let (part, rest) := fractionDigits rest
    let (power, rest) := match power? rest with
      | some (n, left) => (some n, left)
      | none => (none, rest)
    if part.isEmpty && power.isNone then
      some ((decimalInteger negative whole).map fun v => (v, rest))
    else
      some (.ok (.float (.ofDecimal negative (Numeral.value (whole ++ part))
        (power.getD 0 - part.length)), rest))

/-- A number that is not finite, of which the sign was read. -/
def special? (negative : Bool) (text : List Char) : Option (Scanned Setting) :=
  match text with
  | 'i' :: 'n' :: 'f' :: rest => some (.ok (.float (.infinite negative), rest))
  | 'n' :: 'a' :: 'n' :: rest => some (.ok (.float .nan, rest))
  | _ => none

/-- A number. -/
def number (text : List Char) : Scanned Setting :=
  match prefixed? text with
  | some found => .ok found
  | none =>
    let (negative, rest) :=
      match text with
      | '-' :: rest => (true, rest)
      | '+' :: rest => (false, rest)
      | _ => (false, text)
    ((decimal? negative rest).or (special? negative rest)).getD (.error .malformed)

end Toml

end LanguageRelay
