import LanguageRelay.Text.Printable
/-!
# Quoted text

Messages show a text value in quotes: single ones, or double ones where that
saves escapes. The quote, the backslash and whatever does not print are
escaped.
-/

namespace LanguageRelay

namespace Quoted

/-- A hexadecimal digit in small letters. -/
def hexDigit (d : Nat) : Char := if d < 10 then Char.ofNat (48 + d) else Char.ofNat (87 + d)

/-- The last `width` hexadecimal digits of a number. -/
def hex : Nat → Nat → List Char
  | 0, _ => []
  | width + 1, n => hex width (n / 16) ++ [hexDigit (n % 16)]

/-- Double quotes are used for a text that has single quotes and no double
ones. -/
def quoteFor (text : List Char) : Char :=
  if text.contains '\'' && !text.contains '"' then '"' else '\''

/-- One character inside quotes. -/
def escape (quote : Char) (c : Char) : List Char :=
  if c == quote || c == '\\' then ['\\', c]
  else if c == '\t' then ['\\', 't']
  else if c == '\n' then ['\\', 'n']
  else if c == '\r' then ['\\', 'r']
  else if c.toNat < 0x20 || c.toNat == 0x7f then '\\' :: 'x' :: hex 2 c.toNat
  else if c.toNat < 0x7f || isPrintable c then [c]
  else if c.toNat ≤ 0xff then '\\' :: 'x' :: hex 2 c.toNat
  else if c.toNat ≤ 0xffff then '\\' :: 'u' :: hex 4 c.toNat
  else '\\' :: 'U' :: hex 8 c.toNat

/-- The text in quotes. -/
def quote (text : List Char) : List Char :=
  let q := quoteFor text
  q :: (text.flatMap (escape q) ++ [q])

end Quoted

/-- The text in quotes. -/
def quoted (s : String) : String := String.ofList (Quoted.quote s.toList)

end LanguageRelay
