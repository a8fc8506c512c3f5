import LanguageRelay.Proofs.Text.Utf8
import LanguageRelay.Proofs.Uri.Paths
import LanguageRelay.Uri.Basic
/-!
# From paths to URIs and back

The URI of a file is read back as the normal form of its path
(`toPath?_ofPath`), so two files have one URI exactly if their normal forms are
one (`ofPath_inj`).

Three things could break this, and all of them are kept off by what
`Percent.encode` leaves as it is. The parser drops tabs and ends of lines and
cuts at `?` and `#`: none of these is written. It looks for an authority behind
`//`: a path begins with a slash, so the authority is empty, also where the
path itself begins with two. And the decoder reads runs of bytes: what is
written is ASCII throughout, so that all of it is one run, and the bytes of it
are those of the text.
-/

namespace LanguageRelay

namespace Percent

/-! ## Single bytes -/

theorem toNat_lt_of_isUnreserved {b : UInt8} (h : isUnreserved b) : b.toNat < 128 := by
  simp only [isUnreserved, Bool.or_eq_true, Bool.and_eq_true, decide_eq_true_eq, beq_iff_eq] at h
  omega

/-- The character of an unreserved byte. -/
theorem toNat_of_isUnreserved {b : UInt8} (h : isUnreserved b) :
    (Char.ofNat b.toNat).toNat = b.toNat :=
  Utf8.toNat_charOfNat (.inl (by have := toNat_lt_of_isUnreserved h; omega))

theorem hexValue?_hexDigit : ∀ d < 16, hexValue? (hexDigit d) = some d := by decide

theorem escaped?_hexDigits (b : UInt8) :
    escaped? (hexDigit (b.toNat / 16)) (hexDigit (b.toNat % 16)) = some b := by
  have hb := b.toNat_lt
  rw [escaped?, hexValue?_hexDigit _ (by omega), hexValue?_hexDigit _ (by omega)]
  exact congrArg some (Utf8.byte_of_toNat (by omega))

/-- A character that is written: an unreserved one, or the mark of an
escape. -/
def IsWritten (c : Char) : Prop := c = '%' ∨ c.toNat < 128 ∧ isUnreserved (Utf8.byte c.toNat)

theorem isWritten_hexDigit : ∀ d < 16, IsWritten (hexDigit d) := by
  unfold IsWritten
  decide

theorem isWritten_of_mem_encodeByte {b : UInt8} {c : Char} (h : c ∈ encodeByte b) :
    IsWritten c := by
  have hb := b.toNat_lt
  unfold encodeByte at h
  split at h
  case isTrue hfree =>
    rw [List.mem_singleton] at h
    rw [h, IsWritten, toNat_of_isUnreserved hfree, Utf8.byte_of_toNat rfl]
    exact .inr ⟨toNat_lt_of_isUnreserved hfree, hfree⟩
  case isFalse =>
    simp only [List.mem_cons, List.not_mem_nil, or_false] at h
    rcases h with rfl | rfl | rfl
    · exact .inl rfl
    · exact isWritten_hexDigit _ (by omega)
    · exact isWritten_hexDigit _ (by omega)

/-! ## Texts -/

theorem isWritten_of_mem_encode {text : List Char} {c : Char} (h : c ∈ encode text) :
    IsWritten c := by
  obtain ⟨b, -, hc⟩ := List.mem_flatMap.1 h
  exact isWritten_of_mem_encodeByte hc

/-- A reserved character is written as an escape. -/
theorem not_mem_encode {c : Char} (hmark : c ≠ '%')
    (hfree : isUnreserved (Utf8.byte c.toNat) = false) (text : List Char) : c ∉ encode text := by
  intro h
  rcases isWritten_of_mem_encode h with hc | hc
  · exact hmark hc
  · simp [hfree] at hc

/-- What is written for a byte goes to the run. -/
theorem decodeFrom_encodeByte (run : List UInt8) (b : UInt8) (rest : List Char) :
    decodeFrom run (encodeByte b ++ rest) = decodeFrom (b :: run) rest := by
  unfold encodeByte
  split
  case isFalse => simp [decodeFrom, escaped?_hexDigits]
  case isTrue hfree =>
    have hn := toNat_of_isUnreserved hfree
    have hmark : Char.ofNat b.toNat ≠ '%' := fun h => by
      have hb : b.toNat = 37 := hn.symm.trans (congrArg Char.toNat h)
      simp [isUnreserved, hb] at hfree
    have hlow : (Char.ofNat b.toNat).toNat < 128 := by
      rw [hn]
      exact toNat_lt_of_isUnreserved hfree
    rw [List.singleton_append, decodeFrom, if_pos hlow, hn, Utf8.byte_of_toNat rfl]
    exact fun _ _ _ h _ => hmark h

/-- What is written for several bytes is one run. -/
theorem decodeFrom_flatMap (run bytes : List UInt8) :
    decodeFrom run (bytes.flatMap encodeByte) = flush (bytes.reverse ++ run) := by
  induction bytes generalizing run with
  | nil => rfl
  | cons b rest ih =>
    rw [List.flatMap_cons, decodeFrom_encodeByte, ih, List.reverse_cons, List.append_assoc,
      List.singleton_append]

/-- **What is written is read back.** -/
theorem decode_encode (text : List Char) : decode (encode text) = text := by
  rw [decode, encode, decodeFrom_flatMap, List.append_nil, flush, List.reverse_reverse,
    Utf8.decodeLossy_encode]

end Percent

namespace Host

/-- Where there is no separator, nothing is cut off. -/
theorem cut_of_not_mem {sep : Char} {text : List Char} (h : sep ∉ text) :
    cut sep text = (text, none) := by
  induction text with
  | nil => rfl
  | cons c rest ih =>
    rw [List.mem_cons, not_or] at h
    rw [cut, if_neg (by simpa using Ne.symm h.1), ih h.2]

end Host

namespace Uri

/-! ## The parts of a written URI -/

/-- The scheme and the slashes that announce an authority. -/
def filePrefix : List Char := "file://".toList

theorem kept_of_mem_filePrefix :
    ∀ c ∈ filePrefix, (c != '\t' && c != '\r' && c != '\n') = true := by
  have hletters : filePrefix = ['f', 'i', 'l', 'e', ':', '/', '/'] := rfl
  rw [hletters]
  simp only [List.forall_mem_cons]
  exact ⟨rfl, rfl, rfl, rfl, rfl, rfl, rfl, nofun⟩

/-- Nothing that is written behind the prefix is dropped. -/
theorem clean_written (text : List Char) :
    clean (filePrefix ++ Percent.encode text) = filePrefix ++ Percent.encode text := by
  have hstart : (filePrefix ++ Percent.encode text).dropWhile (fun c => c.toNat ≤ 0x20) =
      filePrefix ++ Percent.encode text := rfl
  rw [clean, hstart, List.filter_eq_self]
  intro c hc
  rcases List.mem_append.1 hc with hc | hc
  · exact kept_of_mem_filePrefix c hc
  · have hkept : ∀ d : Char, d = '\t' ∨ d = '\r' ∨ d = '\n' → c ≠ d := by
      rintro d (rfl | rfl | rfl) rfl <;> exact Percent.not_mem_encode (by decide) (by decide) _ hc
    simp [hkept]

/-- The parts of a written URI: no authority, and the path as it was written. -/
theorem parse?_written {text : List Char} (h : Path.isAbsolute text) :
    parse? (filePrefix ++ Percent.encode text) = some ⟨fileScheme, [], Percent.encode text⟩ := by
  obtain ⟨rest, rfl⟩ := Path.exists_cons_of_isAbsolute h
  have hscheme : splitScheme (filePrefix ++ Percent.encode ('/' :: rest)) =
      (fileScheme, '/' :: '/' :: Percent.encode ('/' :: rest)) := rfl
  have hauthority : splitAuthority ('/' :: '/' :: Percent.encode ('/' :: rest)) =
      ([], Percent.encode ('/' :: rest)) := rfl
  have hcut : ∀ sep : Char, sep = '#' ∨ sep = '?' →
      Host.cut sep (Percent.encode ('/' :: rest)) = (Percent.encode ('/' :: rest), none) := by
    rintro sep (rfl | rfl) <;>
      exact Host.cut_of_not_mem (Percent.not_mem_encode (by decide) (by decide) _)
  rw [parse?, clean_written, hscheme]
  dsimp only
  rw [hauthority]
  dsimp only
  rw [if_pos (by decide), hcut '#' (.inl rfl)]
  dsimp only
  rw [hcut '?' (.inr rfl)]

/-! ## There and back -/

theorem ofPath_of_isAbsolute {path : List Char} (h : Path.isAbsolute path) :
    ofPath path = filePrefix ++ Percent.encode (Path.normalize path) := if_pos h

/-- **The URI of an absolute path names its normal form.** -/
theorem toPath?_ofPath {path : List Char} (h : Path.isAbsolute path) :
    toPath? (ofPath path) = some (Path.normalize path) := by
  rw [ofPath_of_isAbsolute h, toPath?, parse?_written (Path.isAbsolute_normalize h),
    Option.map_some, if_pos rfl, Percent.decode_encode]

/-- Only the normal form of a path matters for its URI. -/
theorem ofPath_normalize {path : List Char} (h : Path.isAbsolute path) :
    ofPath (Path.normalize path) = ofPath path := by
  rw [ofPath_of_isAbsolute h, ofPath_of_isAbsolute (Path.isAbsolute_normalize h),
    Path.normalize_normalize]

/-- Two absolute paths have one URI exactly if they have one normal form. -/
theorem ofPath_inj {path other : List Char} (h : Path.isAbsolute path)
    (hother : Path.isAbsolute other) :
    ofPath path = ofPath other ↔ Path.normalize path = Path.normalize other := by
  refine ⟨fun heq => ?_, fun heq => ?_⟩
  · exact Option.some.inj ((toPath?_ofPath h).symm.trans (heq ▸ toPath?_ofPath hother))
  · rw [← ofPath_normalize h, heq, ofPath_normalize hother]

end Uri

end LanguageRelay
