import LanguageRelay.Text.Utf8
/-!
# Percent encoding

`Percent.encode` writes a text as its UTF-8 bytes, all but the unreserved
ones as `%XX`. `Percent.decode` undoes it: in each run of ASCII characters
the bytes, those given by escapes included, are read as UTF-8, with the
replacement character for faults. A `%` without two digits stays.
-/

namespace LanguageRelay

namespace Percent

/-- A hexadecimal digit in capitals. -/
def hexDigit (d : Nat) : Char := if d < 10 then Char.ofNat (48 + d) else Char.ofNat (55 + d)

/-- The value of a hexadecimal digit of either case. -/
def hexValue? (c : Char) : Option Nat :=
  if '0' ≤ c && c ≤ '9' then some (c.toNat - 48)
  else if 'a' ≤ c && c ≤ 'f' then some (c.toNat - 87)
  else if 'A' ≤ c && c ≤ 'F' then some (c.toNat - 55)
  else none

/-- Letters, digits, `_`, `.`, `-`, `~` and the slash stand for themselves. -/
def isUnreserved (b : UInt8) : Bool :=
  let n := b.toNat
  (48 ≤ n && n ≤ 57) || (65 ≤ n && n ≤ 90) || (97 ≤ n && n ≤ 122)
    || n == 95 || n == 46 || n == 45 || n == 126 || n == 47

/-- One byte. -/
def encodeByte (b : UInt8) : List Char :=
  if isUnreserved b then [Char.ofNat b.toNat]
  else ['%', hexDigit (b.toNat / 16), hexDigit (b.toNat % 16)]

/-- The text with all but unreserved bytes escaped. -/
def encode (text : List Char) : List Char := (Utf8.encode text).flatMap encodeByte

/-- The characters of the run read so far; `run` holds its bytes, the last
one first. -/
def flush (run : List UInt8) : List Char := Utf8.decodeLossy run.reverse

/-- The bytes that two digits after a percent sign denote. -/
def escaped? (a b : Char) : Option UInt8 :=
  match hexValue? a, hexValue? b with
  | some x, some y => some (Utf8.byte (16 * x + y))
  | _, _ => none

/-- Decodes the rest of a text after a run of bytes. -/
def decodeFrom (run : List UInt8) : List Char → List Char
  | [] => flush run
  | '%' :: a :: b :: rest =>
    match escaped? a b with
    | some x => decodeFrom (x :: run) rest
    | none => decodeFrom (Utf8.byte 37 :: run) (a :: b :: rest)
  | c :: rest =>
    if c.toNat < 128 then decodeFrom (Utf8.byte c.toNat :: run) rest
    else flush run ++ c :: decodeFrom [] rest

/-- The text with its escapes undone. -/
def decode (text : List Char) : List Char := decodeFrom [] text

end Percent

end LanguageRelay
