/-!
# UTF-8

`Utf8.encode` writes characters as bytes. `Utf8.pieces` reads bytes one at a
time: each piece is a character, or a fault where the bytes so far cannot be
completed. A strict reader refuses faults; a lenient one shows each of them
as the replacement character.
-/

namespace LanguageRelay

namespace Utf8

/-- The byte with the given value. -/
def byte (n : Nat) : UInt8 := UInt8.ofNat n

/-- The bytes of one character. -/
def encodeChar (c : Char) : List UInt8 :=
  let n := c.toNat
  if n < 0x80 then [byte n]
  else if n < 0x800 then [byte (0xc0 + n / 0x40), byte (0x80 + n % 0x40)]
  else if n < 0x10000 then
    [byte (0xe0 + n / 0x1000), byte (0x80 + n / 0x40 % 0x40), byte (0x80 + n % 0x40)]
  else
    [byte (0xf0 + n / 0x40000), byte (0x80 + n / 0x1000 % 0x40), byte (0x80 + n / 0x40 % 0x40),
      byte (0x80 + n % 0x40)]

/-- The bytes of a text. -/
def encode (text : List Char) : List UInt8 := text.flatMap encodeChar

/-- A character begun: the bits read, how many bytes are still to come, and
the bounds of the next one. -/
structure Begun where
  bits : Nat
  left : Nat
  low : Nat
  high : Nat
deriving DecidableEq, Repr

/-- What a byte that begins a character says. -/
inductive Lead where
  | char (c : Char)
  | begun (b : Begun)
  | fault
deriving DecidableEq, Repr

/-- Reads a leading byte. The bounds of the second byte exclude overlong
forms, surrogates and values beyond the last code point. -/
def lead (b : UInt8) : Lead :=
  let n := b.toNat
  if n < 0x80 then .char (Char.ofNat n)
  else if n < 0xc2 then .fault
  else if n < 0xe0 then .begun ⟨n - 0xc0, 1, 0x80, 0xbf⟩
  else if n < 0xf0 then
    .begun ⟨n - 0xe0, 2, if n = 0xe0 then 0xa0 else 0x80, if n = 0xed then 0x9f else 0xbf⟩
  else if n < 0xf5 then
    .begun ⟨n - 0xf0, 3, if n = 0xf0 then 0x90 else 0x80, if n = 0xf4 then 0x8f else 0xbf⟩
  else .fault

/-- The characters of a row of bytes; `none` stands for a fault. -/
def piecesFrom : Option Begun → List UInt8 → List (Option Char)
  | none, [] => []
  | some _, [] => [none]
  | none, b :: rest =>
    match lead b with
    | .char c => some c :: piecesFrom none rest
    | .begun p => piecesFrom (some p) rest
    | .fault => none :: piecesFrom none rest
  | some p, b :: rest =>
    if p.low ≤ b.toNat ∧ b.toNat ≤ p.high then
      let bits := p.bits * 0x40 + (b.toNat - 0x80)
      if p.left ≤ 1 then some (Char.ofNat bits) :: piecesFrom none rest
      else piecesFrom (some ⟨bits, p.left - 1, 0x80, 0xbf⟩) rest
    else
      match lead b with
      | .char c => none :: some c :: piecesFrom none rest
      | .begun q => none :: piecesFrom (some q) rest
      | .fault => none :: none :: piecesFrom none rest

/-- The characters of a row of bytes; `none` stands for a fault. -/
def pieces (bytes : List UInt8) : List (Option Char) := piecesFrom none bytes

/-- The text, if the bytes have no fault. -/
def decode? (bytes : List UInt8) : Option (List Char) := (pieces bytes).mapM id

/-- The text, with the replacement character for each fault. -/
def decodeLossy (bytes : List UInt8) : List Char := (pieces bytes).map (·.getD '\ufffd')

end Utf8

end LanguageRelay
