import LanguageRelay.Failure
import LanguageRelay.Json.Reader
import LanguageRelay.Text.Utf8
/-!
# Frames

The analysis server frames each message: a header block, ended by an empty
line, gives the length of the body in bytes. `Frame.read` takes the first
frame off a row of bytes, or says why there is none yet; `Frame.readAll`
takes off frame after frame until the bytes end.

A frame that cannot be read costs only itself: a header block without a
length is dropped alone, and a body that is no message is dropped whole.
-/

namespace LanguageRelay

namespace Service

namespace Frame

/-! ## The header block -/

/-- The most bytes a header block may have before its end. -/
def headerLimit : Nat := 65536

/-- The bytes before the first empty line, and those after it. -/
def splitHeader : List UInt8 → Option (List UInt8 × List UInt8)
  | [] => none
  | 13 :: 10 :: 13 :: 10 :: after => some ([], after)
  | b :: rest => (splitHeader rest).map fun parts => (b :: parts.1, parts.2)

/-- Adds a byte to the first line. -/
def consByte (b : UInt8) : List (List UInt8) → List (List UInt8)
  | [] => [[b]]
  | line :: rest => (b :: line) :: rest

/-- The lines of a header block, which end in carriage return and line
feed. -/
def headerLines : List UInt8 → List (List UInt8)
  | [] => [[]]
  | 13 :: 10 :: after => [] :: headerLines after
  | b :: rest => consByte b (headerLines rest)

/-- The byte in lower case. -/
def lowerByte (b : UInt8) : UInt8 := if 65 ≤ b && b ≤ 90 then b + 32 else b

/-- How the line begins that gives the length of the body, in lower case. -/
def lengthName : List UInt8 := Utf8.encode "content-length:".toList

/-- What a header line says about the length of the body, if it is about
that. -/
def lengthValue? (line : List UInt8) : Option (List UInt8) :=
  if (line.take lengthName.length).map lowerByte = lengthName then
    some (line.drop lengthName.length)
  else none

/-- The character of an ASCII byte; no other byte can be part of a numeral. -/
def asciiChar (b : UInt8) : Char := if b < 128 then Char.ofNat b.toNat else '\ufffd'

/-- The length of the body that a header block gives: zero if the first line
about it has no positive numeral, or if there is none. -/
def bodyLength (header : List UInt8) : Nat :=
  match (headerLines header).findSome? lengthValue? with
  | some value => ((Numeral.readInt? (value.map asciiChar)).getD 0).toNat
  | none => 0

/-! ## One frame -/

/-- Why no frame can be taken off the bytes there are. -/
inductive Lack where
  /-- More bytes of the header block are needed. -/
  | header
  /-- More bytes of the body are needed. -/
  | body
  /-- The header block is longer than any may be. -/
  | overlong
  /-- The body holds a numeral with more digits than are read. -/
  | refused
deriving DecidableEq, Repr

/-- The message in a body. -/
def message (body : List UInt8) : Except Lack (Except ProtocolFault Json) :=
  match Utf8.decode? body with
  | none => .ok (.error .invalidBody)
  | some text =>
    match Json.read text with
    | .error .malformed => .ok (.error .invalidBody)
    | .error .tooManyDigits => .error .refused
    | .ok (.obj fields) => .ok (.ok (.obj fields))
    | .ok _ => .ok (.error .invalidPayload)

/-- Takes the first frame off: the message in it or what is wrong with it, and
the bytes after it. -/
def read (bytes : List UInt8) : Except Lack (Except ProtocolFault Json × List UInt8) :=
  match splitHeader bytes with
  | none => .error (if headerLimit + 3 < bytes.length then .overlong else .header)
  | some (header, rest) =>
    if headerLimit < header.length then .error .overlong
    else
      let length := bodyLength header
      if length = 0 then .ok (.error .invalidLength, rest)
      else if rest.length < length then .error .body
      else (message (rest.take length)).map fun m => (m, rest.drop length)

/-- What precedes and what follows the empty line has the length of the whole
but for the line's four bytes. -/
theorem length_splitHeader {bytes header rest : List UInt8}
    (h : splitHeader bytes = some (header, rest)) :
    header.length + 4 + rest.length = bytes.length := by
  fun_induction splitHeader bytes generalizing header with
  | case1 => cases h
  | case2 =>
    cases h
    simp only [List.length_nil, List.length_cons]
    omega
  | case3 b tail _ ih =>
    obtain ⟨⟨p, r⟩, hp, he⟩ := Option.map_eq_some_iff.1 h
    cases he
    have hl : p.length + 4 + r.length = tail.length := ih hp
    simp only [List.length_cons]
    omega

/-- A frame has at least the four bytes of its empty line. -/
theorem length_read {bytes rest : List UInt8} {m : Except ProtocolFault Json}
    (h : read bytes = .ok (m, rest)) : rest.length + 4 ≤ bytes.length := by
  unfold read at h
  split at h
  · cases h
  · rename_i header after hs
    have hl := length_splitHeader hs
    split at h
    · cases h
    · dsimp only at h
      split at h
      · cases h
        omega
      · split at h
        · cases h
        · cases hm : message (after.take (bodyLength header)) with
          | error e => rw [hm] at h; cases h
          | ok v =>
            rw [hm] at h
            cases h
            simp only [List.length_drop]
            omega

/-! ## The whole stream -/

/-- How a stream ends. -/
inductive End where
  /-- Between two frames. -/
  | clean
  /-- Within a frame. -/
  | cut (cause : Closure)
  /-- Reading broke off, at a header block that is too long. -/
  | overlong
  /-- Reading broke off, at a numeral that is too long. -/
  | refused
deriving DecidableEq, Repr

/-- An ASCII blank. -/
def isBlankByte (b : UInt8) : Bool := (9 ≤ b && b ≤ 13) || b == 32

/-- How a stream ends whose last bytes make no frame. -/
def endOf (lack : Lack) (bytes : List UInt8) : End :=
  match lack with
  | .header => if bytes.all isBlankByte then .clean else .cut .insideHeader
  | .body => .cut .insideBody
  | .overlong => .overlong
  | .refused => .refused

/-- Takes off frame after frame: what was read of each, and why there is no
further one in the bytes that are left. -/
def readAll (bytes : List UInt8) : List (Except ProtocolFault Json) × Lack × List UInt8 :=
  match h : read bytes with
  | .error lack => ([], lack, bytes)
  | .ok (m, rest) =>
    have : rest.length < bytes.length := by have := length_read h; omega
    let (ms, last) := readAll rest
    (m :: ms, last)
termination_by bytes.length

end Frame

end Service

end LanguageRelay
