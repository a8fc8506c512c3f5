import LanguageRelay.Text.Utf8
/-!
# UTF-8 — the two directions

The strict reader takes back what `Utf8.encode` writes, and nothing else: a
row of bytes reads as a text exactly if it is the encoding of it. So "valid
UTF-8" needs no second definition; it is "the encoding of some text".

The bounds a leading byte sets for the next one are what makes the converse
hold. Without them an overlong form or a surrogate would read as a character
that is written otherwise.
-/

namespace LanguageRelay

namespace Utf8

/-! ## Single bytes -/

/-- A byte keeps a value it has room for. -/
theorem toNat_byte {n : Nat} (h : n < 256) : (byte n).toNat = n := by
  simp only [byte, UInt8.toNat_ofNat']
  omega

/-- A byte is determined by its value. -/
theorem byte_of_toNat {b : UInt8} {n : Nat} (h : b.toNat = n) : byte n = b := by
  subst h
  simp [byte]

/-- The values of characters: no surrogates, and none beyond the last. -/
theorem toNat_bounds (c : Char) :
    c.toNat < 0xd800 ∨ 0xdfff < c.toNat ∧ c.toNat < 0x110000 := c.valid

/-- A value that is no surrogate and not beyond the last is a character's. -/
theorem toNat_charOfNat {n : Nat} (h : n < 0xd800 ∨ 0xdfff < n ∧ n < 0x110000) :
    (Char.ofNat n).toNat = n := by
  rw [Char.ofNat, dif_pos h]
  rfl

/-- The bits of a character after one more of its bytes. -/
def extend (bits : Nat) (b : UInt8) : Nat := bits * 0x40 + (b.toNat - 0x80)

/-- The last byte of a character completes it. -/
theorem piecesFrom_last {bits low high : Nat} {b : UInt8} (rest : List UInt8)
    (hl : low ≤ b.toNat) (hh : b.toNat ≤ high) :
    piecesFrom (some ⟨bits, 1, low, high⟩) (b :: rest) =
      some (Char.ofNat (extend bits b)) :: piecesFrom none rest := by
  rw [piecesFrom, if_pos ⟨hl, hh⟩]
  rfl

/-- A byte before the last one leaves the character begun. -/
theorem piecesFrom_more {bits left low high : Nat} {b : UInt8} (rest : List UInt8)
    (hl : low ≤ b.toNat) (hh : b.toNat ≤ high) :
    piecesFrom (some ⟨bits, left + 2, low, high⟩) (b :: rest) =
      piecesFrom (some ⟨extend bits b, left + 1, 0x80, 0xbf⟩) rest := by
  rw [piecesFrom, if_pos ⟨hl, hh⟩]
  dsimp only
  rw [if_neg (by omega)]
  rfl

/-- A leading byte of several begins a character. -/
theorem piecesFrom_begun {b : UInt8} {p : Begun} (rest : List UInt8) (h : lead b = .begun p) :
    piecesFrom none (b :: rest) = piecesFrom (some p) rest := by
  rw [piecesFrom, h]

/-! ## Reading what was written -/

/-- What `encodeChar` writes for the low bits of a character. -/
def tailByte (n : Nat) : UInt8 := byte (0x80 + n % 0x40)

/-- Its value. -/
theorem toNat_tailByte (n : Nat) : (tailByte n).toNat = 0x80 + n % 0x40 := toNat_byte (by omega)

/-- It gives the low bits back. -/
theorem extend_tailByte (bits n : Nat) : extend bits (tailByte n) = bits * 0x40 + n % 0x40 := by
  have ht := toNat_tailByte n
  unfold extend
  omega

/-- The bytes of a character, by its value. -/
theorem encodeChar_eq (c : Char) :
    encodeChar c =
      if c.toNat < 0x80 then [byte c.toNat]
      else if c.toNat < 0x800 then [byte (0xc0 + c.toNat / 0x40), tailByte c.toNat]
      else if c.toNat < 0x10000 then
        [byte (0xe0 + c.toNat / 0x1000), tailByte (c.toNat / 0x40), tailByte c.toNat]
      else
        [byte (0xf0 + c.toNat / 0x40000), tailByte (c.toNat / 0x1000), tailByte (c.toNat / 0x40),
          tailByte c.toNat] := rfl

/-- Every character reads back from its bytes. -/
theorem piecesFrom_encodeChar (c : Char) (rest : List UInt8) :
    piecesFrom none (encodeChar c ++ rest) = some c :: piecesFrom none rest := by
  have hc := toNat_bounds c
  have hv : Char.ofNat c.toNat = c := Char.ofNat_toNat c
  rw [encodeChar_eq]
  generalize c.toNat = n at hc hv
  have ht := toNat_tailByte
  by_cases h1 : n < 0x80
  · have hb : (byte n).toNat = n := toNat_byte (by omega)
    simp [h1, piecesFrom, lead, hb, hv]
  by_cases h2 : n < 0x800
  · have hb : (byte (0xc0 + n / 0x40)).toNat = 0xc0 + n / 0x40 := toNat_byte (by omega)
    have hl : lead (byte (0xc0 + n / 0x40)) = .begun ⟨n / 0x40, 1, 0x80, 0xbf⟩ := by
      grind [lead]
    have hx : extend (n / 0x40) (tailByte n) = n := by
      rw [extend_tailByte]; omega
    rw [if_neg h1, if_pos h2, List.cons_append, piecesFrom_begun _ hl, List.cons_append,
      piecesFrom_last _ (by rw [ht]; omega) (by rw [ht]; omega), hx, hv, List.nil_append]
  by_cases h3 : n < 0x10000
  · have hb : (byte (0xe0 + n / 0x1000)).toNat = 0xe0 + n / 0x1000 := toNat_byte (by omega)
    have hl : lead (byte (0xe0 + n / 0x1000)) =
        .begun ⟨n / 0x1000, 2, if n / 0x1000 = 0 then 0xa0 else 0x80,
          if n / 0x1000 = 0xd then 0x9f else 0xbf⟩ := by
      grind [lead]
    have hx : extend (extend (n / 0x1000) (tailByte (n / 0x40))) (tailByte n) = n := by
      rw [extend_tailByte, extend_tailByte]; omega
    rw [if_neg h1, if_neg h2, if_pos h3, List.cons_append, piecesFrom_begun _ hl, List.cons_append,
      piecesFrom_more _ (by rw [ht]; split <;> omega) (by rw [ht]; split <;> omega),
      List.cons_append, piecesFrom_last _ (by rw [ht]; omega) (by rw [ht]; omega), hx, hv,
      List.nil_append]
  · have hb : (byte (0xf0 + n / 0x40000)).toNat = 0xf0 + n / 0x40000 := toNat_byte (by omega)
    have hl : lead (byte (0xf0 + n / 0x40000)) =
        .begun ⟨n / 0x40000, 3, if n / 0x40000 = 0 then 0x90 else 0x80,
          if n / 0x40000 = 4 then 0x8f else 0xbf⟩ := by
      grind [lead]
    have hx : extend (extend (extend (n / 0x40000) (tailByte (n / 0x1000))) (tailByte (n / 0x40)))
        (tailByte n) = n := by
      rw [extend_tailByte, extend_tailByte, extend_tailByte]; omega
    rw [if_neg h1, if_neg h2, if_neg h3, List.cons_append, piecesFrom_begun _ hl, List.cons_append,
      piecesFrom_more _ (by rw [ht]; split <;> omega) (by rw [ht]; split <;> omega),
      List.cons_append, piecesFrom_more _ (by rw [ht]; omega) (by rw [ht]; omega),
      List.cons_append, piecesFrom_last _ (by rw [ht]; omega) (by rw [ht]; omega), hx, hv,
      List.nil_append]

/-- A character has a byte. -/
theorem encodeChar_ne_nil (c : Char) : encodeChar c ≠ [] := by
  rw [encodeChar_eq]
  repeat' split
  all_goals exact List.cons_ne_nil _ _

/-- A character that begins with an ASCII byte is the character of that byte. -/
theorem toNat_of_encodeChar {c : Char} {b : UInt8} {rest : List UInt8}
    (h : encodeChar c = b :: rest) (hb : b.toNat < 0x80) : c.toNat = b.toNat := by
  have hc := toNat_bounds c
  rw [encodeChar_eq] at h
  split at h
  · rw [← (List.cons.inj h).1, toNat_byte (by omega)]
  · split at h
    · rw [← (List.cons.inj h).1, toNat_byte (by omega)] at hb
      omega
    · split at h <;> rw [← (List.cons.inj h).1, toNat_byte (by omega)] at hb <;> omega

/-- A text reads back from its bytes, without faults. -/
theorem pieces_encode (text : List Char) : pieces (encode text) = text.map some := by
  induction text with
  | nil => rfl
  | cons c rest ih =>
    simp only [pieces, encode, List.flatMap_cons, List.map_cons] at ih ⊢
    rw [piecesFrom_encodeChar, ih]

/-! ## Only what was written is read -/

/-- Within a character the next byte is one that goes on with it, if there is
no fault. -/
theorem within_of_faultless {p : Begun} {bytes : List UInt8}
    (h : none ∉ piecesFrom (some p) bytes) :
    ∃ b rest, bytes = b :: rest ∧ p.low ≤ b.toNat ∧ b.toNat ≤ p.high := by
  cases bytes with
  | nil => simp [piecesFrom] at h
  | cons b rest =>
    by_cases hb : p.low ≤ b.toNat ∧ b.toNat ≤ p.high
    · exact ⟨b, rest, rfl, hb⟩
    · rw [piecesFrom, if_neg hb] at h
      cases hl : lead b <;> simp [hl] at h

/-- The leading bytes of characters of two, three and four bytes. -/
theorem lead_begun {b : UInt8} {p : Begun} (h : lead b = .begun p) :
    (0xc2 ≤ b.toNat ∧ b.toNat < 0xe0 ∧ p = ⟨b.toNat - 0xc0, 1, 0x80, 0xbf⟩) ∨
    (0xe0 ≤ b.toNat ∧ b.toNat < 0xf0 ∧ p = ⟨b.toNat - 0xe0, 2,
      if b.toNat = 0xe0 then 0xa0 else 0x80, if b.toNat = 0xed then 0x9f else 0xbf⟩) ∨
    (0xf0 ≤ b.toNat ∧ b.toNat < 0xf5 ∧ p = ⟨b.toNat - 0xf0, 3,
      if b.toNat = 0xf0 then 0x90 else 0x80, if b.toNat = 0xf4 then 0x8f else 0xbf⟩) := by
  grind [lead]

/-- A continuation byte is the tail byte of the bits it completes. -/
theorem tailByte_extend {bits : Nat} {b : UInt8} (hl : 0x80 ≤ b.toNat) (hh : b.toNat ≤ 0xbf) :
    tailByte (extend bits b) = b := byte_of_toNat (by unfold extend; omega)

/-- Without the last continuation byte the bits are those before it. -/
theorem extend_div {bits : Nat} {b : UInt8} (hl : 0x80 ≤ b.toNat) (hh : b.toNat ≤ 0xbf) :
    extend bits b / 0x40 = bits := by
  unfold extend
  omega

/-- Where a row of bytes begins a character of several bytes and has no fault,
it begins with all of them. -/
theorem encodeChar_of_begun {b : UInt8} {p : Begun} {bytes : List UInt8} (hb : lead b = .begun p)
    (h : none ∉ piecesFrom (some p) bytes) :
    ∃ c rest, b :: bytes = encodeChar c ++ rest ∧
      piecesFrom (some p) bytes = some c :: piecesFrom none rest := by
  rcases lead_begun hb with ⟨hlo, hhi, rfl⟩ | ⟨hlo, hhi, rfl⟩ | ⟨hlo, hhi, rfl⟩
  · obtain ⟨b1, rest, rfl, h1, h1'⟩ := within_of_faultless h
    dsimp only at h1 h1'
    refine ⟨_, rest, ?_, piecesFrom_last rest h1 h1'⟩
    generalize hv : extend (b.toNat - 0xc0) b1 = v
    have hd : v / 0x40 = b.toNat - 0xc0 := hv ▸ extend_div h1 h1'
    have ht : tailByte v = b1 := hv ▸ tailByte_extend h1 h1'
    have hb : byte (0xc0 + v / 0x40) = b := byte_of_toNat (by omega)
    rw [encodeChar_eq, toNat_charOfNat (by omega), if_neg (by omega), if_pos (by omega), hb, ht]
    rfl
  · obtain ⟨b1, rest, rfl, h1, h1'⟩ := within_of_faultless h
    dsimp only at h1 h1'
    have hl1 : 0x80 ≤ b1.toNat := by split at h1 <;> omega
    have hh1 : b1.toNat ≤ 0xbf := by split at h1' <;> omega
    rw [piecesFrom_more rest h1 h1'] at h ⊢
    obtain ⟨b2, rest, rfl, h2, h2'⟩ := within_of_faultless h
    refine ⟨_, rest, ?_, piecesFrom_last rest h2 h2'⟩
    generalize hw : extend (b.toNat - 0xe0) b1 = w at *
    generalize hv : extend w b2 = v
    have hd : v / 0x40 = w := hv ▸ extend_div h2 h2'
    have ht : tailByte v = b2 := hv ▸ tailByte_extend h2 h2'
    have hd' : w / 0x40 = b.toNat - 0xe0 := hw ▸ extend_div hl1 hh1
    have ht' : tailByte w = b1 := hw ▸ tailByte_extend hl1 hh1
    have hb : byte (0xe0 + v / 0x1000) = b := byte_of_toNat (by omega)
    have hr : 0x20 ≤ w ∧ (w < 0x360 ∨ 0x37f < w) := by
      unfold extend at hw
      split at h1 <;> split at h1' <;> omega
    rw [encodeChar_eq, toNat_charOfNat (by omega), if_neg (by omega), if_neg (by omega),
      if_pos (by omega), hb, hd, ht, ht']
    rfl
  · obtain ⟨b1, rest, rfl, h1, h1'⟩ := within_of_faultless h
    dsimp only at h1 h1'
    have hl1 : 0x80 ≤ b1.toNat := by split at h1 <;> omega
    have hh1 : b1.toNat ≤ 0xbf := by split at h1' <;> omega
    rw [piecesFrom_more rest h1 h1'] at h ⊢
    obtain ⟨b2, rest, rfl, h2, h2'⟩ := within_of_faultless h
    rw [piecesFrom_more rest h2 h2'] at h ⊢
    obtain ⟨b3, rest, rfl, h3, h3'⟩ := within_of_faultless h
    refine ⟨_, rest, ?_, piecesFrom_last rest h3 h3'⟩
    generalize hu : extend (b.toNat - 0xf0) b1 = u at *
    generalize hw : extend u b2 = w at *
    generalize hv : extend w b3 = v
    have hd : v / 0x40 = w := hv ▸ extend_div h3 h3'
    have ht : tailByte v = b3 := hv ▸ tailByte_extend h3 h3'
    have hd' : w / 0x40 = u := hw ▸ extend_div h2 h2'
    have ht' : tailByte w = b2 := hw ▸ tailByte_extend h2 h2'
    have hd'' : u / 0x40 = b.toNat - 0xf0 := hu ▸ extend_div hl1 hh1
    have ht'' : tailByte u = b1 := hu ▸ tailByte_extend hl1 hh1
    have hb : byte (0xf0 + v / 0x40000) = b := byte_of_toNat (by omega)
    have hr : 0x10 ≤ u ∧ u < 0x110 := by
      unfold extend at hu
      split at h1 <;> split at h1' <;> omega
    have hvw : v / 0x1000 = u := by omega
    rw [encodeChar_eq, toNat_charOfNat (by omega), if_neg (by omega), if_neg (by omega),
      if_neg (by omega), hb, hvw, hd, ht, ht', ht'']
    rfl

/-- Bytes without a fault begin with the bytes of a character. -/
theorem encodeChar_of_faultless {b : UInt8} {bytes : List UInt8}
    (h : none ∉ piecesFrom none (b :: bytes)) :
    ∃ c rest, b :: bytes = encodeChar c ++ rest ∧
      piecesFrom none (b :: bytes) = some c :: piecesFrom none rest := by
  cases hb : lead b with
  | fault => simp [piecesFrom, hb] at h
  | begun p =>
    rw [piecesFrom_begun _ hb] at h ⊢
    exact encodeChar_of_begun hb h
  | char c =>
    have hc : b.toNat < 0x80 ∧ c = Char.ofNat b.toNat := by grind [lead]
    have hn : c.toNat = b.toNat := hc.2 ▸ toNat_charOfNat (by omega)
    refine ⟨c, bytes, ?_, by rw [piecesFrom, hb]⟩
    rw [encodeChar_eq, hn, if_pos hc.1, byte_of_toNat rfl]
    rfl

/-- Bytes without a fault are the bytes of the text they read as. -/
theorem encode_of_pieces {bytes : List UInt8} {text : List Char}
    (h : pieces bytes = text.map some) : bytes = encode text := by
  induction text generalizing bytes with
  | nil =>
    cases bytes with
    | nil => rfl
    | cons b bytes =>
      have hfaultless : none ∉ piecesFrom none (b :: bytes) := by rw [← pieces, h]; simp
      obtain ⟨c, rest, -, hp⟩ := encodeChar_of_faultless hfaultless
      rw [← pieces, h] at hp
      cases hp
  | cons c text ih =>
    cases bytes with
    | nil => cases h
    | cons b bytes =>
      have hfaultless : none ∉ piecesFrom none (b :: bytes) := by rw [← pieces, h]; simp
      obtain ⟨c', rest, he, hp⟩ := encodeChar_of_faultless hfaultless
      rw [← pieces, h, List.map_cons, List.cons.injEq, Option.some.injEq] at hp
      obtain ⟨rfl, hr⟩ := hp
      rw [he, ih hr.symm, encode, encode, List.flatMap_cons]

/-! ## The strict reader -/

/-- A row of pieces has no fault exactly if each of them is a character. -/
theorem mapM_id_eq_some {ps : List (Option Char)} {text : List Char} :
    ps.mapM id = some text ↔ ps = text.map some := by
  induction ps generalizing text with
  | nil => cases text <;> simp
  | cons p ps ih =>
    cases p with
    | none => cases text <;> simp
    | some c =>
      cases text with
      | nil => simp [Option.bind_eq_some_iff]
      | cons => simpa [Option.bind_eq_some_iff, ih] using and_comm

/-- **What is read strictly is what was written.** -/
theorem decode?_eq_some_iff {bytes : List UInt8} {text : List Char} :
    decode? bytes = some text ↔ bytes = encode text := by
  rw [decode?, mapM_id_eq_some]
  exact ⟨encode_of_pieces, fun h => h ▸ pieces_encode text⟩

/-- Every text reads back from its bytes. -/
theorem decode?_encode (text : List Char) : decode? (encode text) = some text :=
  decode?_eq_some_iff.2 rfl

/-- Nor does a lenient reader change it. -/
theorem decodeLossy_encode (text : List Char) : decodeLossy (encode text) = text := by
  rw [decodeLossy, pieces_encode, List.map_map]
  exact List.map_id text

/-- ASCII characters are a byte each. -/
theorem encode_ascii {text : List Char} (h : ∀ c ∈ text, c.toNat < 0x80) :
    encode text = text.map fun c => byte c.toNat := by
  induction text with
  | nil => rfl
  | cons c text ih =>
    have hc : encodeChar c = [byte c.toNat] := by
      rw [encodeChar_eq, if_pos (h c List.mem_cons_self)]
    rw [encode, List.flatMap_cons, hc, ← encode, ih fun c hm => h c (List.mem_cons_of_mem _ hm)]
    rfl

end Utf8

end LanguageRelay
