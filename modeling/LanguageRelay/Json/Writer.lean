import LanguageRelay.Json.Value
/-!
# Writing JSON

The shortest form: no blanks, ASCII only. Characters beyond ASCII are
written as UTF-16 escapes, so the text of a value holds no line break.
-/

namespace LanguageRelay

namespace Json

/-- A UTF-16 code unit as an escape. -/
def unitEscape (n : Nat) : List Char := '\\' :: 'u' :: Quoted.hex 4 n

/-- One character inside a string. -/
def escapeChar (c : Char) : List Char :=
  if c == '"' then ['\\', '"']
  else if c == '\\' then ['\\', '\\']
  else if c == '\n' then ['\\', 'n']
  else if c == '\r' then ['\\', 'r']
  else if c == '\t' then ['\\', 't']
  else if c == '\x08' then ['\\', 'b']
  else if c == '\x0c' then ['\\', 'f']
  else if 0x20 ≤ c.toNat && c.toNat ≤ 0x7e then [c]
  else if c.toNat < 0x10000 then unitEscape c.toNat
  else
    let n := c.toNat - 0x10000
    unitEscape (0xd800 + n / 0x400) ++ unitEscape (0xdc00 + n % 0x400)

/-- A string in quotes. -/
def writeString (s : String) : List Char := '"' :: (s.toList.flatMap escapeChar ++ ['"'])

/-- A double: its shortest text, or the name of a value that is no number. -/
def writeDouble : Double → List Char
  | .nan => "NaN".toList
  | .infinite negative => (if negative then "-Infinity" else "Infinity").toList
  | x => x.text.toList

mutual

/-- The text of a value. -/
def write : Json → List Char
  | null => "null".toList
  | bool b => (if b then "true" else "false").toList
  | int n => Numeral.showInt n
  | float x => writeDouble x
  | str s => writeString s
  | arr items => '[' :: (writeItems items ++ [']'])
  | obj fields => '\x7b' :: (writeFields fields ++ ['\x7d'])

/-- Values with commas between them. -/
def writeItems : List Json → List Char
  | [] => []
  | [v] => v.write
  | v :: rest => v.write ++ ',' :: writeItems rest

/-- Keys and values, with commas between them. -/
def writeFields : List (String × Json) → List Char
  | [] => []
  | [(k, v)] => writeString k ++ ':' :: v.write
  | (k, v) :: rest => writeString k ++ ':' :: (v.write ++ ',' :: writeFields rest)

end

end Json

end LanguageRelay
