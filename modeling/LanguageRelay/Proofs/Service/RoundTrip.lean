import LanguageRelay.Json.Reader
import LanguageRelay.Proofs.Service.Line
import LanguageRelay.Proofs.Table
import LanguageRelay.Proofs.Text.Utf8
import Mathlib.Data.List.TakeWhile
/-!
# Commands read back

What is written for a value is read back as that value (`Json.read_write`),
so the line of a command loses nothing of it (`Service.read_encodeLine`).
Each part of the text is read with a rest behind it. Only a number needs to
know something of that rest, since a digit there would be taken for its own
(`Json.Closes`).

A text determines its value if no object of it has a key twice
(`Json.isDefinite`; doubles are left out here). The reader converts integers
of at most `Numeral.maxDigits` digits, and a line that holds a longer one is
refused.
-/

namespace LanguageRelay

namespace Json

/-- What stands behind a number and does not go on with it. -/
def Closes (rest : List Char) : Prop :=
  ∀ c ∈ rest.head?, Numeral.isDigit c = false ∧ c ≠ '.' ∧ c ≠ 'e' ∧ c ≠ 'E'

theorem closes_cons {c : Char} (h : Numeral.isDigit c = false ∧ c ≠ '.' ∧ c ≠ 'e' ∧ c ≠ 'E')
    (rest : List Char) : Closes (c :: rest) := by
  rintro _ ⟨⟩
  exact h

theorem Closes.readFraction {rest : List Char} (h : Closes rest) :
    readFraction rest = (none, rest) := by
  unfold Json.readFraction
  split
  · exact absurd rfl (h '.' rfl).2.1
  · rfl

theorem Closes.readPower {rest : List Char} (h : Closes rest) : readPower rest = (none, rest) := by
  cases rest with
  | nil => rfl
  | cons c rest =>
    obtain ⟨-, -, he, hE⟩ := h c rfl
    simp [Json.readPower, he, hE]

/-- The digits in front of what closes them are all that is taken. -/
theorem Closes.digits {rest : List Char} (h : Closes rest) (n : Nat) :
    (Numeral.digits n ++ rest).takeWhile Numeral.isDigit = Numeral.digits n ∧
      (Numeral.digits n ++ rest).dropWhile Numeral.isDigit = rest := by
  rw [List.takeWhile_append_of_pos Numeral.isDigit_of_mem_digits,
    List.dropWhile_append_of_pos Numeral.isDigit_of_mem_digits]
  cases rest with
  | nil => simp
  | cons c rest => simp [(h c rfl).1]

theorem readWhole_digits {rest : List Char} (h : Closes rest) (n : Nat) :
    readWhole (Numeral.digits n ++ rest) = some (Numeral.digits n, rest) := by
  obtain ⟨htake, hdrop⟩ := h.digits n
  unfold readWhole
  split
  next tail hzero =>
    obtain ⟨c, cs, hcs⟩ := List.exists_cons_of_ne_nil (Numeral.digits_ne_nil n)
    rw [hcs, List.cons_append, List.cons.injEq] at hzero
    obtain ⟨rfl, rfl⟩ := hzero
    obtain rfl := Numeral.digits_eq_zero hcs
    have : cs = [] := by simpa [Numeral.digits, Numeral.digitChar] using hcs.symm
    simp [this, Numeral.digits, Numeral.digitChar]
  next => simp [htake, hdrop, Numeral.digits_ne_nil]

/-- The numeral of an integer. -/
theorem readNumerals_showInt {rest : List Char} (h : Closes rest) (n : Int) :
    readNumerals (Numeral.showInt n ++ rest) =
      some (⟨decide (n < 0), Numeral.digits n.natAbs, none, none⟩, rest) := by
  have hwhole := readWhole_digits h n.natAbs
  by_cases hn : n < 0
  · simp [readNumerals, Numeral.showInt, hn, hwhole, h.readFraction, h.readPower]
  · obtain ⟨c, cs, hcs⟩ := List.exists_cons_of_ne_nil (Numeral.digits_ne_nil n.natAbs)
    have hminus : c ≠ '-' := by
      rintro rfl
      cases Numeral.isDigit_of_mem_digits '-' (hcs ▸ List.mem_cons_self)
    rw [hcs, List.cons_append] at hwhole
    simp [readNumerals, Numeral.showInt, hn, hcs, hminus, hwhole, h.readFraction, h.readPower]

/-- An integer is written with a digit in front, or with a minus sign before a
digit. -/
theorem showInt_head (n : Int) :
    (∃ c cs, Numeral.showInt n = c :: cs ∧ Numeral.isDigit c = true) ∨
      ∃ c cs, Numeral.showInt n = '-' :: c :: cs ∧ Numeral.isDigit c = true := by
  obtain ⟨c, cs, hcs⟩ := List.exists_cons_of_ne_nil (Numeral.digits_ne_nil n.natAbs)
  have hc := Numeral.isDigit_of_mem_digits c (hcs ▸ List.mem_cons_self)
  by_cases hn : n < 0
  · exact .inr ⟨c, cs, by simp [Numeral.showInt, hn, hcs], hc⟩
  · exact .inl ⟨c, cs, by simp [Numeral.showInt, hn, hcs], hc⟩

/-- **An integer is read back** if it has no more digits than are converted. -/
theorem readNumber_showInt {rest : List Char} (h : Closes rest) (n : Int) :
    readNumber (Numeral.showInt n ++ rest) =
      if (Numeral.digits n.natAbs).length ≤ Numeral.maxDigits then .ok (.int n, rest)
      else .error .tooManyDigits := by
  have hsign : (if n < 0 then -(n.natAbs : Int) else n.natAbs) = n := by
    split <;> omega
  have hbegins : ∀ a b tail, Numeral.showInt n ++ rest = a :: b :: tail →
      Numeral.isDigit a = true ∨ a = '-' ∧ Numeral.isDigit b = true := by
    intro a b tail htext
    rcases showInt_head n with ⟨c, cs, hcs, hc⟩ | ⟨c, cs, hcs, hc⟩
    · rw [hcs] at htext
      exact .inl ((List.cons.inj htext).1 ▸ hc)
    · rw [hcs] at htext
      obtain ⟨rfl, htail⟩ := List.cons.inj htext
      exact .inr ⟨rfl, (List.cons.inj htail).1 ▸ hc⟩
  rw [readNumber.eq_4, readNumerals_showInt h]
  · simp only [Numerals.toJson, Numeral.value_digits]
    by_cases hlong : (Numeral.digits n.natAbs).length ≤ Numeral.maxDigits
    · simp only [hlong, if_true, if_neg (Nat.not_lt.mpr hlong), decide_eq_true_eq, hsign,
        Except.map]
    · simp only [hlong, if_false, if_pos (Nat.not_le.mp hlong), Except.map]
  -- no name of a double begins so
  all_goals exact fun tail htext => absurd (hbegins _ _ _ htext) (by decide)

theorem readValue_showInt {rest : List Char} (h : Closes rest) (n : Int) (fuel : Nat) :
    readValue (fuel + 1) (Numeral.showInt n ++ rest) =
      if (Numeral.digits n.natAbs).length ≤ Numeral.maxDigits then .ok (.int n, rest)
      else .error .tooManyDigits := by
  rw [← readNumber_showInt h]
  rcases showInt_head n with ⟨c, cs, hcs, hc⟩ | ⟨c, cs, hcs, -⟩
  · rw [hcs, List.cons_append, readValue]
    all_goals
      intro tail htail
      rw [(List.cons.inj htail).1] at hc
      cases hc
  · rw [hcs, List.cons_append, List.cons_append, readValue] <;> simp

/-! ## Strings -/

theorem hexValue?_hexDigit {d : Nat} (h : d < 16) :
    hexValue? (Quoted.hexDigit d) = some d := by
  have hd : ∀ d < 16, hexValue? (Quoted.hexDigit d) = some d := by decide
  exact hd d h

/-- A code unit is read back from the digits of its escape. -/
theorem unitEscape_eq {n : Nat} (h : n < 0x10000) :
    ∃ a b c d, unitEscape n = ['\\', 'u', a, b, c, d] ∧ hex4? a b c d = some n := by
  refine ⟨_, _, _, _, rfl, ?_⟩
  have hdigit : ∀ m, hexValue? (Quoted.hexDigit (m % 16)) = some (m % 16) :=
    fun m => hexValue?_hexDigit (Nat.mod_lt m (by decide))
  simp only [hex4?, hdigit]
  simp
  omega

/-- The escape of a code unit that is no surrogate stands for its character. -/
theorem readStringFrom_unit {c : Char} (h : c.toNat < 0x10000) (acc rest : List Char) :
    readStringFrom none acc (unitEscape c.toNat ++ rest) = readStringFrom none (c :: acc) rest := by
  obtain ⟨x, y, z, w, hunit, hvalue⟩ := unitEscape_eq h
  have hbounds := Utf8.toNat_bounds c
  have hhigh : isHighSurrogate c.toNat = false := by
    simp only [isHighSurrogate, Bool.and_eq_false_iff, decide_eq_false_iff_not]
    omega
  have hlow : isLowSurrogate c.toNat = false := by
    simp only [isLowSurrogate, Bool.and_eq_false_iff, decide_eq_false_iff_not]
    omega
  have hchar : unitChar c.toNat = c := by simp [unitChar, hhigh, hlow]
  simp [hunit, readStringFrom, hvalue, hhigh, hchar]

/-- The escapes of two surrogates stand for the character they make. -/
theorem readStringFrom_pair {c : Char} (h : 0x10000 ≤ c.toNat) (acc rest : List Char) :
    readStringFrom none acc (unitEscape (0xd800 + (c.toNat - 0x10000) / 0x400) ++
        (unitEscape (0xdc00 + (c.toNat - 0x10000) % 0x400) ++ rest)) =
      readStringFrom none (c :: acc) rest := by
  have hbounds := Utf8.toNat_bounds c
  generalize hm : c.toNat - 0x10000 = m
  obtain ⟨x, y, z, w, hfirst, hhigh⟩ := unitEscape_eq (n := 0xd800 + m / 0x400) (by omega)
  obtain ⟨x', y', z', w', hsecond, hlow⟩ := unitEscape_eq (n := 0xdc00 + m % 0x400) (by omega)
  have hishigh : isHighSurrogate (0xd800 + m / 0x400) = true := by
    simp only [isHighSurrogate, Bool.and_eq_true, decide_eq_true_eq]
    omega
  have hislow : isLowSurrogate (0xdc00 + m % 0x400) = true := by
    simp only [isLowSurrogate, Bool.and_eq_true, decide_eq_true_eq]
    omega
  have hchar : Char.ofNat (0x10000 + (0xd800 + m / 0x400 - 0xd800) * 0x400 +
      (0xdc00 + m % 0x400 - 0xdc00)) = c := by
    rw [show 0x10000 + (0xd800 + m / 0x400 - 0xd800) * 0x400 + (0xdc00 + m % 0x400 - 0xdc00)
      = c.toNat by omega, Char.ofNat_toNat]
  simp only [hfirst, hsecond, List.cons_append, List.nil_append, readStringFrom, hhigh, hlow,
    hishigh, hislow, if_true, hchar]

/-- **A character is read back from what is written for it.** -/
theorem readStringFrom_escapeChar (c : Char) (acc rest : List Char) :
    readStringFrom none acc (escapeChar c ++ rest) = readStringFrom none (c :: acc) rest := by
  by_cases hshort : c ∈ ['"', '\\', '\n', '\r', '\t', '\x08', '\x0c']
  · simp only [List.mem_cons, List.not_mem_nil, or_false] at hshort
    rcases hshort with rfl | rfl | rfl | rfl | rfl | rfl | rfl <;>
      simp [escapeChar, readStringFrom, shortEscape?]
  · simp only [List.mem_cons, List.not_mem_nil, or_false, not_or] at hshort
    obtain ⟨hquote, hslash, hn, hr, ht, hb, hf⟩ := hshort
    simp only [escapeChar, beq_iff_eq, hquote, hslash, hn, hr, ht, hb, hf, if_false]
    split
    next hplain =>
      simp only [Bool.and_eq_true, decide_eq_true_eq] at hplain
      cases rest <;> simp [readStringFrom, hquote, hslash, Nat.not_lt.mpr hplain.1]
    next =>
      split
      next hunit => exact readStringFrom_unit hunit acc rest
      next hpair =>
        rw [List.append_assoc]
        exact readStringFrom_pair (Nat.not_lt.mp hpair) acc rest

/-- **A string is read back.** -/
theorem readString_escaped (s : String) (rest : List Char) :
    readString (s.toList.flatMap escapeChar ++ '"' :: rest) = .ok (s, rest) := by
  have hchars : ∀ cs acc, readStringFrom none acc (cs.flatMap escapeChar ++ '"' :: rest) =
      some (acc.reverse ++ cs, rest) := by
    intro cs
    induction cs with
    | nil =>
      intro acc
      cases rest <;> simp [readStringFrom]
    | cons c cs ih =>
      intro acc
      rw [List.flatMap_cons, List.append_assoc, readStringFrom_escapeChar, ih]
      simp
  simp [readString, hchars]

/-! ## Values -/

mutual

/-- A value that its text determines: no double is in it, and no object of it
has a key twice. -/
def isDefinite : Json → Bool
  | float _ => false
  | arr items => areDefinite items
  | obj fields => decide (Table.keys fields).Nodup && haveDefinite fields
  | _ => true

/-- All values of an array are determined by their texts. -/
def areDefinite : List Json → Bool
  | [] => true
  | v :: rest => v.isDefinite && areDefinite rest

/-- All values of an object are determined by their texts. -/
def haveDefinite : List (String × Json) → Bool
  | [] => true
  | (_, v) :: rest => v.isDefinite && haveDefinite rest

end

mutual

/-- The digits of the longest integer of a value. -/
def longest : Json → Nat
  | int n => (Numeral.digits n.natAbs).length
  | arr items => longestItem items
  | obj fields => longestField fields
  | _ => 0

/-- The digits of the longest integer of an array. -/
def longestItem : List Json → Nat
  | [] => 0
  | v :: rest => max v.longest (longestItem rest)

/-- The digits of the longest integer of an object. -/
def longestField : List (String × Json) → Nat
  | [] => 0
  | (_, v) :: rest => max v.longest (longestField rest)

end

/-- What comes of reading a text that stands for `v`, with integers of `digits`
digits at most. -/
def readAs (digits : Nat) (v : Json) (rest : List Char) : Except ReadFault (Json × List Char) :=
  if digits ≤ Numeral.maxDigits then .ok (v, rest) else .error .tooManyDigits

theorem readAs_max (m n : Nat) (v : Json) (rest : List Char) : readAs (max m n) v rest =
    if m ≤ Numeral.maxDigits then readAs n v rest else .error .tooManyDigits := by
  simp only [readAs, Nat.max_le]
  split <;> split <;> simp_all

theorem skipSpace_cons {c : Char} (h : isSpace c = false) (rest : List Char) :
    skipSpace (c :: rest) = c :: rest := by
  simp [skipSpace, h]

theorem writeFields_head (k : String) (v : Json) (fields : Fields) :
    ∃ cs, writeFields ((k, v) :: fields) = '"' :: cs := by
  cases fields <;> exact ⟨_, rfl⟩

/-- The text of a value begins with neither a blank nor a closing bracket. -/
theorem write_head {v : Json} (h : v.isDefinite) :
    ∃ c cs, v.write = c :: cs ∧ isSpace c = false ∧ c ≠ ']' := by
  cases v with
  | null => exact ⟨_, _, rfl, by decide⟩
  | bool b => cases b <;> exact ⟨_, _, rfl, by decide⟩
  | int n =>
    rcases showInt_head n with ⟨c, cs, hcs, hc⟩ | ⟨c, cs, hcs, -⟩
    · refine ⟨c, cs, hcs, ?_, ?_⟩
      · by_contra hspace
        simp only [isSpace, Bool.not_eq_false, Bool.or_eq_true, beq_iff_eq] at hspace
        rcases hspace with ((rfl | rfl) | rfl) | rfl <;> cases hc
      · rintro rfl
        cases hc
    · exact ⟨_, _, hcs, by decide⟩
  | float x => simp [isDefinite] at h
  | str s => exact ⟨_, _, rfl, by decide⟩
  | arr items => exact ⟨_, _, rfl, by decide⟩
  | obj fields => exact ⟨_, _, rfl, by decide⟩

theorem writeItems_head {v : Json} (h : v.isDefinite) (items : List Json) :
    ∃ c cs, writeItems (v :: items) = c :: cs ∧ isSpace c = false ∧ c ≠ ']' := by
  obtain ⟨c, cs, hcs, hc⟩ := write_head h
  cases items with
  | nil => exact ⟨c, cs, by rw [writeItems, hcs], hc⟩
  | cons w rest => exact ⟨c, cs ++ ',' :: writeItems (w :: rest), by simp [writeItems, hcs], hc⟩

/-- A key that stands behind others is not among them. -/
theorem not_mem_keys_of_nodup {k : String} {v : Json} {acc fields : Fields}
    (h : (Table.keys (acc ++ (k, v) :: fields)).Nodup) : k ∉ Table.keys acc := by
  intro hmem
  simp only [Table.keys, List.map_append, List.map_cons] at h hmem
  exact (List.nodup_append.mp h).2.2 k hmem k List.mem_cons_self rfl

/-- **A member is set under its key**, and what stands behind it says whether
more come. -/
theorem readMembers_member {k : String} {v : Json} {fuel : Nat} {c : Char} {rest : List Char}
    (acc : Fields) (hv : v.isDefinite) (hc : c = '\x7d' ∨ c = ',')
    (hread : readValue fuel (v.write ++ c :: rest) = readAs v.longest v (c :: rest)) :
    readMembers (fuel + 1) acc (writeString k ++ ':' :: (v.write ++ c :: rest)) =
      if v.longest ≤ Numeral.maxDigits then
        if c = '\x7d' then .ok (.obj (Table.put k v acc), rest)
        else readMembers fuel (Table.put k v acc) (skipSpace rest)
      else .error .tooManyDigits := by
  obtain ⟨d, ds, hds, hspace, -⟩ := write_head hv
  rw [hds, List.cons_append] at hread
  have hskip := skipSpace_cons hspace (ds ++ c :: rest)
  have hcolon : skipSpace (':' :: d :: (ds ++ c :: rest)) = ':' :: d :: (ds ++ c :: rest) :=
    skipSpace_cons (by decide) _
  simp only [writeString, List.cons_append, List.append_assoc, List.nil_append, readMembers,
    readString_escaped, hds, hcolon, hskip, hread]
  by_cases hlong : v.longest ≤ Numeral.maxDigits
  · rcases hc with rfl | rfl <;> simp [readAs, hlong, skipSpace_cons, isSpace]
  · simp only [readAs, hlong, if_false]

mutual

/-- **A value is read back from its text**, whatever stands behind it, unless an
integer is too long to be converted. -/
theorem readValue_write : ∀ (v : Json), v.isDefinite → ∀ (fuel : Nat) (rest : List Char),
    v.write.length ≤ fuel → Closes rest →
      readValue fuel (v.write ++ rest) = readAs v.longest v rest
  | v, h, 0, rest, hfuel, _ => by
    obtain ⟨c, cs, hcs, -⟩ := write_head h
    simp [hcs] at hfuel
  | .null, _, fuel + 1, rest, _, _ => by simp [write, readValue, readAs, longest]
  | .bool b, _, fuel + 1, rest, _, _ => by
    cases b <;> simp [write, readValue, readAs, longest]
  | .int n, _, fuel + 1, rest, _, hclosed => by
    rw [write, readValue_showInt hclosed, readAs, longest]
  | .str s, _, fuel + 1, rest, _, _ => by
    simp [write, writeString, readValue, readString_escaped, readAs, longest, Except.map]
  | .arr [], _, fuel + 1, rest, _, _ => by
    simp [write, writeItems, readValue, skipSpace_cons, isSpace, readAs, longest, longestItem]
  | .arr (v :: items), h, fuel + 1, rest, hfuel, _ => by
    rw [isDefinite] at h
    have hv : v.isDefinite := by
      rw [areDefinite, Bool.and_eq_true] at h
      exact h.1
    obtain ⟨c, cs, hcs, hspace, hbracket⟩ := writeItems_head hv items
    have hitems := readItems_write (v :: items) (List.cons_ne_nil _ _) h fuel [] rest
      (by simpa [write] using hfuel)
    rw [hcs, List.cons_append] at hitems
    simp [write, hcs, readValue, skipSpace_cons hspace, hbracket, hitems, longest]
  | .obj [], _, fuel + 1, rest, _, _ => by
    simp [write, writeFields, readValue, skipSpace_cons, isSpace, readAs, longest, longestField]
  | .obj ((k, v) :: fields), h, fuel + 1, rest, hfuel, _ => by
    rw [isDefinite, Bool.and_eq_true, decide_eq_true_eq] at h
    have hfields := readMembers_write ((k, v) :: fields) (List.cons_ne_nil _ _) h.2 fuel [] rest
      (by simpa using h.1) (by simpa [write] using hfuel)
    obtain ⟨cs, hcs⟩ := writeFields_head k v fields
    rw [hcs, List.cons_append] at hfields
    simp [write, hcs, readValue, skipSpace_cons, isSpace, hfields, longest]

/-- The items of an array are read behind those read before. -/
theorem readItems_write : ∀ (items : List Json), items ≠ [] → areDefinite items →
    ∀ (fuel : Nat) (acc : List Json) (rest : List Char), (writeItems items).length + 1 ≤ fuel →
      readItems fuel acc (writeItems items ++ ']' :: rest) =
        readAs (longestItem items) (.arr (acc.reverse ++ items)) rest
  | [v], _, h, fuel + 1, acc, rest, hfuel => by
    have hv : v.isDefinite := by simpa [areDefinite] using h
    have hread := readValue_write v hv fuel (']' :: rest) (by simpa [writeItems] using hfuel)
      (closes_cons (by decide) _)
    by_cases hlong : v.longest ≤ Numeral.maxDigits <;>
      simp [writeItems, readItems, hread, readAs, longestItem, hlong, skipSpace_cons, isSpace]
  | v :: w :: items, _, h, fuel + 1, acc, rest, hfuel => by
    rw [areDefinite, Bool.and_eq_true] at h
    simp only [writeItems, List.length_append, List.length_cons] at hfuel
    have hw : w.isDefinite := by
      have := h.2
      rw [areDefinite, Bool.and_eq_true] at this
      exact this.1
    obtain ⟨c, cs, hcs, hspace, -⟩ := writeItems_head hw items
    have hread := readValue_write v h.1 fuel (',' :: (writeItems (w :: items) ++ ']' :: rest))
      (by omega) (closes_cons (by decide) _)
    have hitems := readItems_write (w :: items) (List.cons_ne_nil _ _) h.2 fuel (v :: acc) rest
      (by omega)
    rw [hcs, List.cons_append] at hread hitems
    have hskip := skipSpace_cons hspace (cs ++ ']' :: rest)
    have hlongest : longestItem (v :: w :: items) = max v.longest (longestItem (w :: items)) := rfl
    rw [hlongest, readAs_max]
    simp only [writeItems, readItems, hcs, List.append_assoc, List.cons_append, hread]
    by_cases hlong : v.longest ≤ Numeral.maxDigits
    · simp [hlong, skipSpace_cons, isSpace, hskip, hitems, readAs]
    · simp [hlong, readAs]

/-- The members of an object are set behind those read before. -/
theorem readMembers_write : ∀ (fields : Fields), fields ≠ [] → haveDefinite fields →
    ∀ (fuel : Nat) (acc : Fields) (rest : List Char), (Table.keys (acc ++ fields)).Nodup →
      (writeFields fields).length + 1 ≤ fuel →
      readMembers fuel acc (writeFields fields ++ '\x7d' :: rest) =
        readAs (longestField fields) (.obj (acc ++ fields)) rest
  | [(k, v)], _, h, fuel + 1, acc, rest, hkeys, hfuel => by
    have hv : v.isDefinite := by simpa [haveDefinite] using h
    simp only [writeFields, List.length_append, List.length_cons] at hfuel
    have hread := readValue_write v hv fuel ('\x7d' :: rest) (by omega) (closes_cons (by decide) _)
    have hmember := readMembers_member (k := k) acc hv (.inl rfl) hread
    rw [if_pos rfl, Table.put_of_not_mem v (not_mem_keys_of_nodup hkeys)] at hmember
    simpa [writeFields, longestField, readAs] using hmember
  | (k, v) :: (l, w) :: fields, _, h, fuel + 1, acc, rest, hkeys, hfuel => by
    rw [haveDefinite, Bool.and_eq_true] at h
    simp only [writeFields, List.length_append, List.length_cons] at hfuel
    have hread := readValue_write v h.1 fuel
      (',' :: (writeFields ((l, w) :: fields) ++ '\x7d' :: rest)) (by omega)
      (closes_cons (by decide) _)
    have hmember := readMembers_member (k := k) acc h.1 (.inr rfl) hread
    have hfields := readMembers_write ((l, w) :: fields) (List.cons_ne_nil _ _) h.2 fuel
      (acc ++ [(k, v)]) rest (by simpa using hkeys) (by omega)
    obtain ⟨cs, hcs⟩ := writeFields_head l w fields
    rw [hcs, List.cons_append] at hmember hfields
    have hquote : skipSpace ('"' :: (cs ++ '\x7d' :: rest)) = '"' :: (cs ++ '\x7d' :: rest) :=
      skipSpace_cons (by decide) _
    have hcomma : (',' : Char) ≠ '\x7d' := by decide
    rw [if_neg hcomma, hquote, Table.put_of_not_mem v (not_mem_keys_of_nodup hkeys), hfields]
      at hmember
    have hlongest : longestField ((k, v) :: (l, w) :: fields) =
        max v.longest (longestField ((l, w) :: fields)) := rfl
    rw [hlongest, readAs_max]
    simp only [writeFields, hcs, List.append_assoc, List.cons_append, hmember]
    by_cases hlong : v.longest ≤ Numeral.maxDigits
    · simp [hlong, readAs]
    · simp [hlong]

end

/-- **A text read back**: the text of a value gives that value, with blanks behind
it or without, unless an integer of it is too long to be converted. -/
theorem read_write {v : Json} (h : v.isDefinite) {blanks : List Char}
    (hblanks : ∀ c ∈ blanks, isSpace c) :
    read (v.write ++ blanks) =
      if v.longest ≤ Numeral.maxDigits then .ok v else .error .tooManyDigits := by
  have hclosed : Closes blanks := by
    intro c hc
    have hspace := hblanks c (List.mem_of_mem_head? hc)
    simp only [isSpace, Bool.or_eq_true, beq_iff_eq] at hspace
    rcases hspace with ((rfl | rfl) | rfl) | rfl <;> decide
  obtain ⟨c, cs, hcs, hspace, -⟩ := write_head h
  have hskip : skipSpace (v.write ++ blanks) = v.write ++ blanks := by
    rw [hcs]
    exact skipSpace_cons hspace _
  have hread := readValue_write v h (2 * (v.write ++ blanks).length + 2) blanks
    (by rw [List.length_append]; omega) hclosed
  rw [read, hskip, hread, readAs]
  by_cases hlong : v.longest ≤ Numeral.maxDigits
  · have hempty : skipSpace blanks = [] := by
      simpa [skipSpace, List.dropWhile_eq_nil_iff] using hblanks
    simp [hlong, hempty]
  · simp [hlong]

mutual

/-- **A value can be written if its longest integer can.** -/
theorem isWritable_iff : ∀ v : Json, v.isWritable ↔ v.longest ≤ Numeral.maxDigits
  | .int n => by
    rw [isWritable, longest, Numeral.length_digits_le_iff (by decide), decide_eq_true_iff, Nat.pow_eq]
  | .arr items => by simpa only [isWritable, longest] using areWritable_iff items
  | .obj fields => by simpa only [isWritable, longest] using fieldsAreWritable_iff fields
  | .null | .bool _ | .float _ | .str _ => by simp [isWritable, longest]

theorem areWritable_iff : ∀ items : List Json,
    areWritable items ↔ longestItem items ≤ Numeral.maxDigits
  | [] => by simp [areWritable, longestItem]
  | v :: rest => by
    simp only [areWritable, longestItem, Bool.and_eq_true, Nat.max_le, isWritable_iff v,
      areWritable_iff rest]

theorem fieldsAreWritable_iff : ∀ fields : List (String × Json),
    fieldsAreWritable fields ↔ longestField fields ≤ Numeral.maxDigits
  | [] => by simp [fieldsAreWritable, longestField]
  | (_, v) :: rest => by
    simp only [fieldsAreWritable, longestField, Bool.and_eq_true, Nat.max_le, isWritable_iff v,
      fieldsAreWritable_iff rest]

end

end Json

/-! ## Commands -/

namespace Service

/-- A printable text is its bytes. -/
theorem printable_encode {text : List Char} (h : Plain text) :
    ∀ b ∈ Utf8.encode text, 0x20 ≤ b.toNat ∧ b.toNat ≤ 0x7e := by
  intro b hb
  rw [Utf8.encode_ascii fun c hc => by have := h c hc; omega] at hb
  obtain ⟨c, hc, rfl⟩ := List.mem_map.mp hb
  have := h c hc
  rwa [Utf8.toNat_byte (by omega)]

variable {c : Command}

theorem Command.isDefinite_toJson (h : c.arguments.isDefinite) : c.toJson.isDefinite := by
  unfold toJson argumentsField
  split
  next => rfl
  next arguments =>
    simp [Json.isDefinite, Json.haveDefinite, Table.keys, h]

/-- The longest integer of a command is its number or stands in its arguments. -/
theorem Command.longest_toJson :
    c.toJson.longest = max (Numeral.digits c.seq.natAbs).length c.arguments.longest := by
  unfold toJson argumentsField
  split
  next h => simp [h, Json.longest, Json.longestField]
  next => simp [Json.longest, Json.longestField]

/-- **A command has a line just if what is written for it would be read back.** -/
theorem line?_toJson (c : Command) : line? c.toJson =
    if (Numeral.digits c.seq.natAbs).length ≤ Numeral.maxDigits ∧
        c.arguments.longest ≤ Numeral.maxDigits then .ok (encodeLine c.toJson)
    else .error (.value .badValue) := by
  simp only [line?, Json.isWritable_iff, Command.longest_toJson, Nat.max_le]

/-- **A command comes through its line.** The bytes are printable but for the line
feed behind them, and they hold the number, the name and the arguments of the
command, the latter unless they are null. -/
theorem read_encodeLine (c : Command) (h : c.arguments.isDefinite) :
    (∃ text, Utf8.encode (encodeLine c.toJson) = text ++ [10] ∧
      ∀ b ∈ text, 0x20 ≤ b.toNat ∧ b.toNat ≤ 0x7e) ∧
    Utf8.decode? (Utf8.encode (encodeLine c.toJson)) = some (encodeLine c.toJson) ∧
    Json.read (encodeLine c.toJson) =
      if (Numeral.digits c.seq.natAbs).length ≤ Numeral.maxDigits ∧
          c.arguments.longest ≤ Numeral.maxDigits then
        .ok (.obj ([("seq", .int c.seq), ("type", .str "request"), ("command", .str c.name)] ++
          if c.arguments.isNull then [] else [("arguments", c.arguments)]))
      else .error .tooManyDigits := by
  have hplain := Json.plain_write c.toJson
  have hbytes : Utf8.encode (encodeLine c.toJson) = Utf8.encode c.toJson.write ++ [10] := by
    simp only [encodeLine, Utf8.encode, List.flatMap_append]
    rfl
  have hfields : c.toJson =
      .obj ([("seq", .int c.seq), ("type", .str "request"), ("command", .str c.name)] ++
        if c.arguments.isNull then [] else [("arguments", c.arguments)]) := by
    cases harguments : c.arguments <;>
      simp [Command.toJson, Command.argumentsField, harguments, Json.isNull]
  refine ⟨⟨_, hbytes, printable_encode hplain⟩, Utf8.decode?_encode _, ?_⟩
  have hfeed : ∀ c ∈ ['\n'], Json.isSpace c := by simp [Json.isSpace]
  rw [← hfields, encodeLine, Json.read_write (Command.isDefinite_toJson h) hfeed,
    Command.longest_toJson]
  simp only [Nat.max_le]

/-- Arguments with texts that have to be escaped, a null among them, and an integer
of more than 64 bits. -/
theorem read_encodeLine_escaped :
    let arguments : Json := .obj [("file", .str "/\"\n😀\x00.ts"), ("line", .null),
      ("offsets", .arr [.int (-123456789012345678901), .bool true])]
    arguments.isDefinite ∧
      Json.read (encodeLine (Command.toJson ⟨7, "open", arguments⟩)) =
        .ok (.obj [("seq", .int 7), ("type", .str "request"), ("command", .str "open"),
          ("arguments", arguments)]) := by
  intro arguments
  have hdefinite : arguments.isDefinite := by decide
  refine ⟨hdefinite, ?_⟩
  have hseq : (Numeral.digits (7 : Int).natAbs).length ≤ Numeral.maxDigits := by
    simp [Numeral.digits, Numeral.maxDigits]
  have hlongest : arguments.longest ≤ Numeral.maxDigits := by
    simp [arguments, Json.longest, Json.longestItem, Json.longestField, Numeral.digits,
      Numeral.maxDigits]
  have hread := (read_encodeLine ⟨7, "open", arguments⟩ hdefinite).2.2
  rw [if_pos ⟨hseq, hlongest⟩] at hread
  exact hread

/-- **An integer with a digit more than are converted does not come through.** -/
theorem read_encodeLine_tooLong :
    Json.read (encodeLine (Command.toJson
      ⟨1, "x", .obj [("n", .int (10 ^ Numeral.maxDigits : Nat))]⟩)) = .error .tooManyDigits := by
  have hlong : ¬ (Json.obj [("n", .int (10 ^ Numeral.maxDigits : Nat))]).longest ≤
      Numeral.maxDigits := by
    simp only [Json.longest, Json.longestField, Int.natAbs_natCast, Numeral.length_digits_pow]
    omega
  have hdefinite : ∀ n : Int, (Json.obj [("n", .int n)]).isDefinite := by
    simp [Json.isDefinite, Json.haveDefinite, Table.keys]
  have hfeed : ∀ c ∈ ['\n'], Json.isSpace c := by simp [Json.isSpace]
  rw [encodeLine, Json.read_write (Command.isDefinite_toJson (hdefinite _)) hfeed,
    Command.longest_toJson, if_neg (by rw [Nat.max_le]; exact fun h => hlong h.2)]

end Service

end LanguageRelay
