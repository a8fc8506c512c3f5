import LanguageRelay.Proofs.Service.Streams
import LanguageRelay.Proofs.Text.Numeral
import LanguageRelay.Proofs.Text.Utf8
import Mathlib.Data.List.Forall2
/-!
# Frames — what the reader makes of them

A frame is a header block that announces the length of a body, an empty
line, and a body of that length (`Framed`). The bytes of the body are
arbitrary: they may hold empty lines, or lines that look like a header. The
reader never looks at them before it has counted them off, so it comes to
the next frame wherever this one ends: `read_framed`.

What is read of a frame depends on its body alone (`Reads`): the object in
it, or a fault. One kind of body is not among those, and it is not a frame's
private matter. A JSON integer with more digits than are converted is
`Refused`, and reading breaks off there: `readAll_refused`.
-/

namespace LanguageRelay

namespace Service

namespace Frame

/-! ## Header blocks -/

/-- What ends a line of a header block. -/
def lineEnd : List UInt8 := [13, 10]

/-- A line is split off at its end. -/
theorem headerLines_append {line : List UInt8} (h : ¬ lineEnd <:+: line) (rest : List UInt8) :
    headerLines (line ++ lineEnd ++ rest) = line :: headerLines rest := by
  induction line with
  | nil => rfl
  | cons b line ih =>
    obtain ⟨hp, hi⟩ := not_or.1 (List.infix_cons_iff.not.1 h)
    rw [List.cons_append, List.cons_append, headerLines, ih hi, consByte]
    rintro after rfl he
    cases line with
    | nil => cases he
    | cons c line =>
      cases he
      exact hp ⟨line, rfl⟩

/-- Bytes without a line end are one line. -/
theorem headerLines_single {line : List UInt8} (h : ¬ lineEnd <:+: line) :
    headerLines line = [line] := by
  induction line with
  | nil => rfl
  | cons b line ih =>
    obtain ⟨hp, hi⟩ := not_or.1 (List.infix_cons_iff.not.1 h)
    rw [headerLines, ih hi, consByte]
    rintro after rfl rfl
    exact hp ⟨after, rfl⟩

/-- Lines that were joined are found again. -/
theorem headerLines_intercalate {lines : List (List UInt8)} (hn : lines ≠ [])
    (h : ∀ line ∈ lines, ¬ lineEnd <:+: line) :
    headerLines (lineEnd.intercalate lines) = lines := by
  induction lines with
  | nil => exact absurd rfl hn
  | cons line lines ih =>
    have hl : ¬ lineEnd <:+: line := h line List.mem_cons_self
    cases lines with
    | nil => simpa [List.intercalate] using headerLines_single hl
    | cons next rest =>
      have hj : lineEnd.intercalate (line :: next :: rest) =
          line ++ lineEnd ++ lineEnd.intercalate (next :: rest) := by
        simp [List.intercalate]
      rw [hj, headerLines_append hl,
        ih (List.cons_ne_nil _ _) fun l hm => h l (List.mem_cons_of_mem _ hm)]

/-- The header block announces a body of `n` bytes: the first of its lines that
is about the length of the body gives the number. -/
structure Announces (header : List UInt8) (n : Nat) : Prop where
  /-- The header block has no empty line but the one that ends it. -/
  sole : Sole header
  /-- It is no longer than any may be. -/
  short : header.length ≤ headerLimit
  positive : 0 < n
  first : ∃ before line after value,
    header = lineEnd.intercalate (before ++ line :: after) ∧
    (∀ l ∈ before ++ line :: after, ¬ lineEnd <:+: l) ∧
    (∀ l ∈ before, lengthValue? l = none) ∧
    lengthValue? line = some value ∧ Numeral.readInt? (value.map asciiChar) = some n

/-- The announced length is the one the reader counts off. -/
theorem Announces.bodyLength {header : List UInt8} {n : Nat} (h : Announces header n) :
    bodyLength header = n := by
  obtain ⟨before, line, after, value, he, hl, hb, hv, hr⟩ := h.first
  have hf : (headerLines header).findSome? lengthValue? = some value := by
    rw [he, headerLines_intercalate (by simp) hl, List.findSome?_append,
      List.findSome?_eq_none_iff.2 hb, List.findSome?_cons, hv]
    rfl
  simp [Frame.bodyLength, hf, hr]

/-! ## Bodies -/

/-- What a body is read as. -/
inductive Reads (body : List UInt8) : Except ProtocolFault Json → Prop where
  /-- UTF-8, and JSON of an object. -/
  | object {text : List Char} {fields : Fields} (decoded : body = Utf8.encode text)
      (read : Json.read text = .ok (.obj fields)) : Reads body (.ok (.obj fields))
  /-- UTF-8, and JSON of something else. -/
  | other {text : List Char} {v : Json} (decoded : body = Utf8.encode text)
      (read : Json.read text = .ok v) (other : ∀ fields, v ≠ .obj fields) :
      Reads body (.error .invalidPayload)
  /-- UTF-8, but not JSON. -/
  | malformed {text : List Char} (decoded : body = Utf8.encode text)
      (read : Json.read text = .error .malformed) : Reads body (.error .invalidBody)
  /-- Not UTF-8. -/
  | undecodable (undecodable : ∀ text, body ≠ Utf8.encode text) : Reads body (.error .invalidBody)

/-- The body is UTF-8, and JSON but for an integer that has more digits than
are converted. -/
def Refused (body : List UInt8) : Prop :=
  ∃ text, body = Utf8.encode text ∧ Json.read text = .error .tooManyDigits

/-- A body that is not refused is read as it says. -/
theorem message_of_not_refused {body : List UInt8} (h : ¬ Refused body) :
    ∃ m, message body = .ok m ∧ Reads body m := by
  unfold message
  cases hd : Utf8.decode? body with
  | none =>
    refine ⟨_, rfl, .undecodable fun text he => ?_⟩
    rw [he, Utf8.decode?_encode] at hd
    cases hd
  | some text =>
    have he : body = Utf8.encode text := Utf8.decode?_eq_some_iff.1 hd
    dsimp only
    cases hr : Json.read text with
    | error fault =>
      cases fault with
      | malformed => exact ⟨_, rfl, .malformed he hr⟩
      | tooManyDigits => exact absurd ⟨text, he, hr⟩ h
    | ok v => cases v with
      | obj fields => exact ⟨_, rfl, .object he hr⟩
      | null | bool | int | float | str | arr =>
        exact ⟨_, rfl, .other he hr fun _ => nofun⟩

/-- A body that is refused is read as nothing. -/
theorem message_of_refused {body : List UInt8} (h : Refused body) :
    message body = .error .refused := by
  obtain ⟨text, rfl, hr⟩ := h
  simp [message, Utf8.decode?_encode, hr]

/-! ## Frames -/

/-- A frame: a header block and the body it announces. -/
structure Framed where
  header : List UInt8
  body : List UInt8
  announces : Announces header body.length

/-- The bytes of a frame. -/
def Framed.bytes (f : Framed) : List UInt8 := f.header ++ separator ++ f.body

/-- **A frame is taken off whole.** Whatever its body holds, what is left are
the bytes after it. -/
theorem read_framed (f : Framed) (rest : List UInt8) :
    read (f.bytes ++ rest) = (message f.body).map fun m => (m, rest) := by
  have hs : splitHeader (f.bytes ++ rest) = some (f.header, f.body ++ rest) := by
    rw [Framed.bytes, List.append_assoc _ f.body]
    exact splitHeader_of_sole f.announces.sole _
  rw [read_of_some hs f.announces.short, f.announces.bodyLength,
    if_neg (Nat.ne_of_gt f.announces.positive), if_neg (by simp), List.take_left, List.drop_left]

/-- Frame after frame is read as its own body says, and none affects another. -/
theorem readAll_framed {fs : List Framed} (h : ∀ f ∈ fs, ¬ Refused f.body) (rest : List UInt8) :
    ∃ ms, List.Forall₂ (fun f m => Reads f.body m) fs ms ∧
      readAll (fs.flatMap Framed.bytes ++ rest) = (ms ++ (readAll rest).1, (readAll rest).2) := by
  induction fs with
  | nil => exact ⟨[], .nil, rfl⟩
  | cons f fs ih =>
    obtain ⟨m, hm, hr⟩ := message_of_not_refused (h f List.mem_cons_self)
    obtain ⟨ms, hms, he⟩ := ih fun f hf => h f (List.mem_cons_of_mem _ hf)
    refine ⟨m :: ms, .cons hr hms, ?_⟩
    have hf : read (f.bytes ++ (fs.flatMap Framed.bytes ++ rest)) =
        .ok (m, fs.flatMap Framed.bytes ++ rest) := by
      rw [read_framed, hm]
      rfl
    rw [List.flatMap_cons, List.append_assoc, readAll_of_ok hf, he]
    rfl

/-- Reading breaks off at a body that is refused. The frame stays in the
stream, and so does all that follows it. -/
theorem readAll_refused {f : Framed} (h : Refused f.body) (rest : List UInt8) :
    readAll (f.bytes ++ rest) = ([], .refused, f.bytes ++ rest) :=
  readAll_of_error (by rw [read_framed, message_of_refused h]; rfl)

/-! ## Frames of texts -/

/-- A line about the length of the body, up to the number. -/
def lengthLabel : List Char := "Content-Length:".toList

/-- The one line of a header block that announces `n` bytes. -/
def lengthLine (n : Nat) : List Char := lengthLabel ++ ' ' :: Numeral.digits n

/-- The line is ASCII, without controls. -/
theorem bounds_lengthLine (n : Nat) : ∀ c ∈ lengthLine n, 32 ≤ c.toNat ∧ c.toNat < 127 := by
  intro c hc
  have hl : ∀ c ∈ lengthLabel ++ [' '], 32 ≤ c.toNat ∧ c.toNat < 127 :=
    List.forall_iff_forall_mem.mp (by decide)
  rw [lengthLine, List.append_cons, List.mem_append] at hc
  rcases hc with hc | hc
  · exact hl c hc
  · have hd := Numeral.bounds_of_mem_digits hc
    omega

/-- A header block without carriage returns has no line end. -/
theorem lineEnd_not_infix {header : List UInt8} (h : 13 ∉ header) : ¬ lineEnd <:+: header :=
  fun hi => h (hi.subset List.mem_cons_self)

/-- A header block without carriage returns has no empty line. -/
theorem sole_of_not_mem {header : List UInt8} (h : 13 ∉ header) : Sole header := by
  intro a b he
  rw [List.append_assoc, List.append_eq_append_iff] at he
  have hlen : ∀ p : List UInt8, separator = p ++ (separator ++ b) → b = [] := by
    intro p hp
    have hl := congrArg List.length hp
    simp only [List.length_append] at hl
    exact List.length_eq_zero_iff.1 (by omega)
  rcases he with ⟨p, -, hp⟩ | ⟨p, hp, hs⟩
  · exact hlen p hp
  · cases p with
    | nil => exact hlen [] hs.symm
    | cons x p =>
      have hx : x = 13 := (List.cons.inj hs).1.symm
      exact absurd (by rw [hp, hx]; simp) h

/-- An ASCII character is read back from its byte. -/
theorem asciiChar_byte {c : Char} (h : c.toNat < 128) : asciiChar (Utf8.byte c.toNat) = c := by
  have hn : (Utf8.byte c.toNat).toNat = c.toNat :=
    Utf8.toNat_byte (Nat.lt_trans h (by decide))
  have hb : Utf8.byte c.toNat < 128 := by
    rw [UInt8.lt_iff_toNat_lt, hn]
    exact h
  simp [asciiChar, hb, hn]

/-- The line is a byte for each of its characters. -/
theorem encode_lengthLine (n : Nat) :
    Utf8.encode (lengthLine n) = (lengthLine n).map fun c => Utf8.byte c.toNat :=
  Utf8.encode_ascii fun c hc => by have := bounds_lengthLine n c hc; omega

/-- It is as long as the name, a blank and the digits. -/
theorem length_encode_lengthLine (n : Nat) :
    (Utf8.encode (lengthLine n)).length = 16 + (Numeral.digits n).length := by
  rw [encode_lengthLine, List.length_map, lengthLine, List.length_append, List.length_cons,
    show lengthLabel.length = 15 from rfl]
  omega

/-- There is no carriage return in it. -/
theorem not_mem_lengthLine (n : Nat) : 13 ∉ Utf8.encode (lengthLine n) := by
  rw [encode_lengthLine, List.mem_map]
  rintro ⟨c, hc, h⟩
  have hb := bounds_lengthLine n c hc
  have hn := congrArg UInt8.toNat h
  rw [Utf8.toNat_byte (by omega)] at hn
  have h13 : (13 : UInt8).toNat = 13 := rfl
  omega

/-- It is about the length. -/
theorem lengthValue?_lengthLine (n : Nat) :
    lengthValue? (Utf8.encode (lengthLine n)) =
      some ((' ' :: Numeral.digits n).map fun c => Utf8.byte c.toNat) := by
  rw [encode_lengthLine]
  rfl

/-- The header block of one line announces what it says, unless the number has
too many digits to be read. -/
theorem announces_lengthLine {n : Nat} (hp : 0 < n)
    (hd : (Numeral.digits n).length ≤ Numeral.maxDigits) :
    Announces (Utf8.encode (lengthLine n)) n := by
  have hcr := not_mem_lengthLine n
  refine ⟨sole_of_not_mem hcr, ?_, hp, [], _, [], _, by simp [List.intercalate], ?_,
    fun l hm => absurd hm List.not_mem_nil, lengthValue?_lengthLine n, ?_⟩
  · rw [length_encode_lengthLine]
    unfold headerLimit
    unfold Numeral.maxDigits at hd
    omega
  · simpa using lineEnd_not_infix hcr
  · have hm : ((' ' :: Numeral.digits n).map fun c => Utf8.byte c.toNat).map asciiChar =
        ' ' :: Numeral.digits n := by
      rw [List.map_map]
      refine (List.map_congr_left fun c hc => asciiChar_byte ?_).trans (List.map_id _)
      have := bounds_lengthLine n c (List.mem_append_right _ hc)
      omega
    have hblank : ∀ c ∈ [' '], Numeral.isSpace c = true := List.forall_mem_singleton.mpr rfl
    rw [hm]
    exact Numeral.readInt?_digits hblank hd

/-- The bytes of a text, framed. -/
def frame (text : List Char) : List UInt8 :=
  Utf8.encode (lengthLine (Utf8.encode text).length) ++ separator ++ Utf8.encode text

/-- A framed text is a frame, unless it is empty or its length has too many
digits to be read. -/
def Framed.ofText (text : List Char) (hp : 0 < (Utf8.encode text).length)
    (hd : (Numeral.digits (Utf8.encode text).length).length ≤ Numeral.maxDigits) : Framed :=
  ⟨Utf8.encode (lengthLine (Utf8.encode text).length), Utf8.encode text, announces_lengthLine hp hd⟩

/-- Its bytes are those of the framed text. -/
theorem Framed.bytes_ofText {text : List Char} (hp : 0 < (Utf8.encode text).length)
    (hd : (Numeral.digits (Utf8.encode text).length).length ≤ Numeral.maxDigits) :
    (ofText text hp hd).bytes = frame text := rfl

/-- JSON is not empty. -/
theorem length_pos_of_read {text : List Char} {v : Json} (h : Json.read text = .ok v) :
    0 < (Utf8.encode text).length := by
  cases text with
  | nil => cases h
  | cons c text =>
    have hc : 0 < (Utf8.encodeChar c).length := List.length_pos_iff.2 (Utf8.encodeChar_ne_nil c)
    rw [Utf8.encode, List.flatMap_cons, List.length_append]
    omega

/-- **Objects that were framed are read back.** -/
theorem readAll_frame {texts : List (List Char)} {objects : List Fields}
    (h : List.Forall₂ (fun text fields => Json.read text = .ok (.obj fields)) texts objects)
    (hd : ∀ text ∈ texts, (Numeral.digits (Utf8.encode text).length).length ≤ Numeral.maxDigits) :
    readAll (texts.flatMap frame) = (objects.map fun fields => .ok (.obj fields), .header, []) := by
  induction h with
  | nil => exact readAll_nil
  | @cons text fields texts objects hr _ ih =>
    have hm : message (Utf8.encode text) = .ok (.ok (.obj fields)) := by
      simp [message, Utf8.decode?_encode, hr]
    have hf : read (frame text ++ texts.flatMap frame) =
        .ok (.ok (.obj fields), texts.flatMap frame) := by
      rw [← Framed.bytes_ofText (length_pos_of_read hr) (hd text List.mem_cons_self), read_framed,
        show (Framed.ofText text _ _).body = Utf8.encode text from rfl, hm]
      rfl
    rw [List.flatMap_cons, readAll_of_ok hf,
      ih fun t ht => hd t (List.mem_cons_of_mem _ ht)]
    rfl

/-! ## An integer that is too long -/

/-- An object with one integer, of `n` digits. -/
def longInteger (n : Nat) : List Char :=
  '\x7b' :: '"' :: '"' :: ':' :: (List.replicate n '1' ++ ['\x7d'])

/-- An integer with too many digits is not converted. -/
theorem readNumber_ones {n : Nat} (h : Numeral.maxDigits < n + 1) (rest : List Char) :
    Json.readNumber ('1' :: (List.replicate n '1' ++ '\x7d' :: rest)) = .error .tooManyDigits := by
  have ht : ('1' :: (List.replicate n '1' ++ '\x7d' :: rest)).takeWhile Numeral.isDigit =
      '1' :: List.replicate n '1' := by
    rw [← List.cons_append, List.takeWhile_append_of_pos (by simp [Numeral.isDigit])]
    simp [Numeral.isDigit]
  have hd : ('1' :: (List.replicate n '1' ++ '\x7d' :: rest)).dropWhile Numeral.isDigit =
      '\x7d' :: rest := by
    rw [← List.cons_append, List.dropWhile_append_of_pos (by simp [Numeral.isDigit])]
    simp [Numeral.isDigit]
  have hw : Json.readWhole ('1' :: (List.replicate n '1' ++ '\x7d' :: rest)) =
      some ('1' :: List.replicate n '1', '\x7d' :: rest) := by
    unfold Json.readWhole
    split
    · rename_i he
      cases he
    · rename_i text _
      rw [ht, hd]
      rfl
  simp [Json.readNumber, Json.readNumerals, hw, Json.readFraction, Json.readPower,
    Json.Numerals.toJson, h]
  rfl

/-- So the object is not read. -/
theorem read_longInteger {n : Nat} (h : Numeral.maxDigits < n) :
    Json.read (longInteger n) = .error .tooManyDigits := by
  obtain ⟨n, rfl⟩ : ∃ k, n = k + 1 := ⟨n - 1, by omega⟩
  obtain ⟨fuel, hf⟩ : ∃ fuel, 2 * (longInteger (n + 1)).length + 2 = fuel + 3 :=
    ⟨2 * (longInteger (n + 1)).length - 1, by simp [longInteger]; omega⟩
  have hs : Json.skipSpace (longInteger (n + 1)) = longInteger (n + 1) := rfl
  have hv : Json.readValue (fuel + 3) (longInteger (n + 1)) = .error .tooManyDigits := by
    rw [longInteger, List.replicate_succ, Json.readValue]
    simp [Json.skipSpace, Json.isSpace, Json.readMembers, Json.readString, Json.readStringFrom,
      Json.readValue, readNumber_ones h]
  rw [Json.read, hf, hs, hv]
/-- The object is a body that is refused. -/
theorem refused_longInteger {n : Nat} (h : Numeral.maxDigits < n) :
    Refused (Utf8.encode (longInteger n)) := ⟨_, rfl, read_longInteger h⟩

/-- Its characters are ASCII. -/
theorem length_encode_longInteger (n : Nat) : (Utf8.encode (longInteger n)).length = n + 5 := by
  have ha : ∀ c ∈ longInteger n, c.toNat < 0x80 := by
    intro c hc
    simp only [longInteger, List.mem_cons, List.mem_append, List.mem_replicate, List.not_mem_nil,
      or_false] at hc
    rcases hc with rfl | rfl | rfl | rfl | ⟨-, rfl⟩ | rfl <;> decide
  rw [Utf8.encode_ascii ha, List.length_map, longInteger]
  simp

end Frame

end Service

end LanguageRelay
