import LanguageRelay.Proofs.Service.Strays
/-!
# What a stream is taken apart into

Whatever bytes come, reading them takes off piece after piece (`Piece`): a
frame, or a header block that announces no length, each with its empty line.
The pieces and what is left over make up the stream, so none is read twice
and none left out, and their number is bounded by the length of the stream.
`Ending` says of the bytes left over how the stream ends with them, one
constructor per end (`stream_settled`).
-/

namespace LanguageRelay

namespace Service

namespace Frame

variable {bytes header body rest last : List UInt8} {m : Except ProtocolFault Json} {n : Nat}

/-! ## Header blocks -/

/-- The end of a header block is at the first empty line. -/
theorem exists_splitHeader (before after : List UInt8) :
    ∃ header rest, splitHeader (before ++ separator ++ after) = some (header, rest) ∧
      header.length ≤ before.length := by
  induction before with
  | nil => exact ⟨[], after, rfl, Nat.le_refl _⟩
  | cons b before ih =>
    by_cases hp : separator <+: b :: (before ++ separator ++ after)
    · exact ⟨[], _, splitHeader_of_separator hp, Nat.zero_le _⟩
    · obtain ⟨header, rest, hs, hle⟩ := ih
      refine ⟨b :: header, rest, ?_, Nat.succ_le_succ hle⟩
      rw [List.cons_append, List.cons_append, splitHeader_cons hp, hs]
      rfl

/-- A header block that is split off has no other empty line. -/
theorem sole_of_splitHeader (h : splitHeader bytes = some (header, rest)) : Sole header := by
  intro a b hab
  have hbytes : bytes = a ++ separator ++ (b ++ rest) := by
    rw [eq_of_splitHeader h, hab, List.append_assoc]
  obtain ⟨header', rest', hs, hle⟩ := exists_splitHeader a (b ++ rest)
  rw [← hbytes, h] at hs
  cases hs
  have hlength := congrArg List.length hab
  simp only [List.length_append] at hlength
  exact List.length_eq_zero_iff.mp (by omega)

/-- The lines of a header block make it up, and none holds the end of a
line. -/
theorem headerLines_spec (header : List UInt8) :
    headerLines header ≠ [] ∧ lineEnd.intercalate (headerLines header) = header ∧
      ∀ line ∈ headerLines header, ¬ lineEnd <:+: line := by
  fun_induction headerLines header with
  | case1 => exact ⟨by simp, rfl, by simp [lineEnd]⟩
  | case2 after ih =>
    obtain ⟨hne, heq, hlines⟩ := ih
    refine ⟨by simp, ?_, List.forall_mem_cons.mpr ⟨by simp [lineEnd], hlines⟩⟩
    obtain ⟨line, lines, hcons⟩ := List.exists_cons_of_ne_nil hne
    rw [hcons, List.intercalate_cons_cons, ← hcons, heq]
    rfl
  | case3 b rest hnot ih =>
    obtain ⟨hne, heq, hlines⟩ := ih
    obtain ⟨line, lines, hcons⟩ := List.exists_cons_of_ne_nil hne
    rw [hcons] at heq hlines ⊢
    obtain ⟨hline, hlines⟩ := List.forall_mem_cons.mp hlines
    have hrest : lineEnd.intercalate ((b :: line) :: lines) = b :: rest := by
      rw [← heq]
      cases lines <;> simp [List.intercalate_cons_cons]
    refine ⟨by simp [consByte], hrest, List.forall_mem_cons.mpr ⟨fun hinside => ?_, hlines⟩⟩
    rcases List.infix_cons_iff.mp hinside with ⟨tail, htail⟩ | hinside
    · -- the line would begin with the end of a line, and so would the block
      obtain ⟨rfl, rfl⟩ := List.cons.inj htail
      refine hnot (lineEnd.intercalate (tail :: lines)) rfl ?_
      rw [← heq]
      cases lines <;> simp [List.intercalate_cons_cons]
    · exact hline hinside

/-- **A header block announces a length** just if the reader counts off a
positive one. -/
theorem announces_iff (hsole : Sole header) (hshort : header.length ≤ headerLimit) :
    Announces header n ↔ 0 < n ∧ bodyLength header = n := by
  refine ⟨fun h => ⟨h.positive, h.bodyLength⟩, fun ⟨hpos, hlength⟩ => ?_⟩
  obtain ⟨-, heq, hlines⟩ := headerLines_spec header
  unfold bodyLength at hlength
  cases hfirst : (headerLines header).findSome? lengthValue? with
  | none =>
    simp only [hfirst] at hlength
    omega
  | some value =>
    simp only [hfirst] at hlength
    obtain ⟨before, line, after, hsplit, hvalue, hbefore⟩ := List.findSome?_eq_some_iff.mp hfirst
    have hread : Numeral.readInt? (value.map asciiChar) = some (n : Int) := by
      cases hint : Numeral.readInt? (value.map asciiChar) with
      | none =>
        simp only [hint, Option.getD_none, Int.toNat_zero] at hlength
        omega
      | some k =>
        simp only [hint, Option.getD_some] at hlength
        exact congrArg some (by omega)
    rw [hsplit] at heq hlines
    exact ⟨hsole, hshort, hpos, before, line, after, value, heq.symm, hlines, hbefore, hvalue,
      hread⟩

theorem bodyLength_eq_zero_iff (hsole : Sole header) (hshort : header.length ≤ headerLimit) :
    bodyLength header = 0 ↔ ∀ n, ¬ Announces header n := by
  constructor
  · intro hzero n hannounces
    have hpos := ((announces_iff hsole hshort).mp hannounces)
    omega
  · intro hnone
    by_contra hne
    exact hnone _ ((announces_iff hsole hshort).mpr ⟨Nat.pos_of_ne_zero hne, rfl⟩)

/-! ## Pieces -/

/-- **What is taken off a stream at a time**, and what it is read as. -/
inductive Piece : List UInt8 → Except ProtocolFault Json → Prop where
  /-- A header block that announces no length, with its empty line. -/
  | unmeasured {header : List UInt8} (hsole : Sole header) (hshort : header.length ≤ headerLimit)
      (hnone : ∀ n, ¬ Announces header n) : Piece (header ++ separator) (.error .invalidLength)
  /-- A frame. -/
  | framed (f : Framed) {m : Except ProtocolFault Json} (hreads : Reads f.body m) : Piece f.bytes m

/-- A body that reads as something is a message. -/
theorem Reads.message (h : Reads body m) : Frame.message body = .ok m := by
  cases h with
  | object hdecoded hread => simp [Frame.message, hdecoded, Utf8.decode?_encode, hread]
  | other hdecoded hread hother =>
    rename_i text v
    cases v with
    | obj fields => exact absurd rfl (hother fields)
    | _ => simp [Frame.message, hdecoded, Utf8.decode?_encode, hread]
  | malformed hdecoded hread => simp [Frame.message, hdecoded, Utf8.decode?_encode, hread]
  | undecodable hnot =>
    have hnone : Utf8.decode? body = none := by
      by_contra hsome
      obtain ⟨text, htext⟩ := Option.ne_none_iff_exists'.mp hsome
      exact hnot text (Utf8.decode?_eq_some_iff.mp htext)
    simp only [Frame.message, hnone]

/-- **A piece is taken off as it is**, whatever follows. -/
theorem Piece.read (h : Piece bytes m) (rest : List UInt8) :
    Frame.read (bytes ++ rest) = .ok (m, rest) := by
  cases h with
  | unmeasured hsole hshort hnone =>
    rw [read_of_some (splitHeader_of_sole hsole rest) hshort,
      if_pos ((bodyLength_eq_zero_iff hsole hshort).mpr hnone)]
  | framed f hreads =>
    rw [read_framed, hreads.message]
    rfl

/-- A piece has at least the four bytes of its empty line. -/
theorem Piece.four_le (h : Piece bytes m) : 4 ≤ bytes.length := by
  have hlength := length_read (h.read [])
  simpa using hlength

/-- What is read is a piece. -/
theorem piece_of_read (h : Frame.read bytes = .ok (m, rest)) :
    ∃ piece, bytes = piece ++ rest ∧ Piece piece m := by
  cases hs : splitHeader bytes with
  | none =>
    rw [read_of_none hs] at h
    cases h
  | some parts =>
    obtain ⟨header, after⟩ := parts
    have hsole := sole_of_splitHeader hs
    have hbytes := eq_of_splitHeader hs
    by_cases hshort : header.length ≤ headerLimit
    · rw [read_of_some hs hshort] at h
      split at h
      · rename_i hzero
        cases h
        exact ⟨header ++ separator, hbytes, .unmeasured hsole hshort
          ((bodyLength_eq_zero_iff hsole hshort).mp hzero)⟩
      · rename_i hpos
        split at h
        · cases h
        · rename_i hlong
          have hbody : (after.take (bodyLength header)).length = bodyLength header := by
            rw [List.length_take]
            omega
          have hannounces : Announces header (after.take (bodyLength header)).length := by
            rw [hbody]
            exact (announces_iff hsole hshort).mpr ⟨Nat.pos_of_ne_zero hpos, rfl⟩
          let f : Framed := ⟨header, after.take (bodyLength header), hannounces⟩
          have hparts : bytes = f.bytes ++ after.drop (bodyLength header) := by
            rw [Framed.bytes, List.append_assoc, List.take_append_drop]
            exact hbytes
          by_cases hrefused : Refused f.body
          · rw [message_of_refused hrefused] at h
            cases h
          · obtain ⟨m', hm, hreads⟩ := message_of_not_refused hrefused
            rw [hm] at h
            cases h
            exact ⟨f.bytes, hparts, .framed f hreads⟩
    · rw [read_of_overlong hs (by omega)] at h
      cases h

/-! ## What is left over -/

/-- **How a stream ends** with the bytes that are left over. -/
inductive Ending (last : List UInt8) : End → Prop where
  /-- Nothing is left over but blanks. -/
  | clean (hblank : ∀ b ∈ last, isBlankByte b = true) (hshort : last.length ≤ headerLimit + 3) :
      Ending last .clean
  | insideHeader (hopen : ¬ separator <:+: last) (hdata : ∃ b ∈ last, isBlankByte b = false)
      (hshort : last.length ≤ headerLimit + 3) : Ending last (.cut .insideHeader)
  | insideBody {header part : List UInt8} {n : Nat} (hlast : last = header ++ separator ++ part)
      (hannounces : Announces header n) (hpart : part.length < n) : Ending last (.cut .insideBody)
  /-- No empty line comes within the bytes a header block may have. -/
  | overlong (hlong : headerLimit + 3 < last.length)
      (hopen : ∀ header rest, last = header ++ separator ++ rest → headerLimit < header.length) :
      Ending last .overlong
  | refused {f : Framed} {rest : List UInt8} (hlast : last = f.bytes ++ rest)
      (hrefused : Refused f.body) : Ending last .refused

/-- The lines of a header block hold no bytes but its own. -/
theorem mem_of_mem_headerLines {line : List UInt8} (h : line ∈ headerLines header) :
    ∀ b ∈ line, b ∈ header := by
  fun_induction headerLines header generalizing line with
  | case1 => simp [List.mem_singleton.mp h]
  | case2 after ih =>
    rcases List.mem_cons.mp h with rfl | h
    · simp
    · exact fun b hb => List.mem_cons_of_mem _ (List.mem_cons_of_mem _ (ih h b hb))
  | case3 c rest _ ih =>
    cases hlines : headerLines rest with
    | nil => exact absurd hlines (headerLines_spec rest).1
    | cons first lines =>
      rw [hlines] at h ih
      intro b hb
      rcases List.mem_cons.mp h with rfl | h
      · rcases List.mem_cons.mp hb with rfl | hb
        · exact List.mem_cons_self
        · exact List.mem_cons_of_mem _ (ih List.mem_cons_self b hb)
      · exact List.mem_cons_of_mem _ (ih (List.mem_cons_of_mem _ h) b hb)

/-- A line about the length does not begin with a blank. -/
theorem lengthValue?_of_blank {line : List UInt8} (h : ∀ b ∈ line, isBlankByte b = true) :
    lengthValue? line = none := by
  unfold lengthValue?
  rw [if_neg]
  intro hname
  cases line with
  | nil => exact absurd hname (by decide)
  | cons b line =>
    have hblank := h b List.mem_cons_self
    rcases of_lowerByte (List.cons.inj hname).1 with rfl | rfl
    · exact absurd hblank (by decide)
    · exact absurd hblank (by decide)

/-- A header block of blanks announces no length. -/
theorem bodyLength_of_blank (h : ∀ b ∈ header, isBlankByte b = true) : bodyLength header = 0 := by
  have hnone : (headerLines header).findSome? lengthValue? = none :=
    List.findSome?_eq_none_iff.mpr fun line hline =>
      lengthValue?_of_blank fun b hb => h b (mem_of_mem_headerLines hline b hb)
  simp only [bodyLength, hnone]

/-- Where the header block is whole, the next call takes it off, or lacks some
of the body, or breaks off. -/
theorem read_of_announces (hsole : Sole header) (hannounces : Announces header n)
    (part : List UInt8) :
    Frame.read (header ++ separator ++ part) =
      if part.length < n then .error .body
      else (Frame.message (part.take n)).map fun m => (m, part.drop n) := by
  rw [read_of_some (splitHeader_of_sole hsole part) hannounces.short, hannounces.bodyLength,
    if_neg (Nat.ne_of_gt hannounces.positive)]

/-- **The bytes left over say how the stream ends.** -/
theorem ending_of_read {lack : Lack} (h : Frame.read last = .error lack) :
    Ending last (endOf lack last) := by
  cases hs : splitHeader last with
  | none =>
    have hopen := splitHeader_eq_none_iff.mp hs
    rw [read_of_none hs] at h
    split at h
    · rename_i hlong
      cases h
      refine .overlong hlong fun header rest hlast => absurd ?_ hopen
      exact ⟨header, rest, hlast.symm⟩
    · rename_i hshort
      cases h
      rw [endOf]
      split
      · rename_i hblank
        exact .clean (List.all_eq_true.mp hblank) (by omega)
      · rename_i hdata
        refine .insideHeader hopen ?_ (by omega)
        simpa using hdata
  | some parts =>
    obtain ⟨header, part⟩ := parts
    have hlast := eq_of_splitHeader hs
    have hsole := sole_of_splitHeader hs
    by_cases hshort : header.length ≤ headerLimit
    · rw [read_of_some hs hshort] at h
      split at h
      · cases h
      · rename_i hpos
        have hannounces := (announces_iff hsole hshort).mpr ⟨Nat.pos_of_ne_zero hpos, rfl⟩
        split at h
        · rename_i hpart
          cases h
          exact .insideBody hlast hannounces hpart
        · rename_i hpart
          have hbody : (part.take (bodyLength header)).length = bodyLength header := by
            rw [List.length_take]
            omega
          rw [← hbody] at hannounces
          let f : Framed := ⟨header, part.take (bodyLength header), hannounces⟩
          by_cases hrefused : Refused f.body
          · rw [message_of_refused hrefused] at h
            cases h
            have hframed : last = f.bytes ++ part.drop (bodyLength header) := by
              rw [Framed.bytes, List.append_assoc, List.take_append_drop]
              exact hlast
            exact .refused hframed hrefused
          · obtain ⟨m, hm, -⟩ := message_of_not_refused hrefused
            rw [hm] at h
            cases h
    · rw [read_of_overlong hs (by omega)] at h
      cases h
      refine .overlong ?_ fun header' rest hlast' => ?_
      · have hlength := length_splitHeader hs
        omega
      · obtain ⟨header'', rest'', hs', hle⟩ := exists_splitHeader header' rest
        rw [← hlast', hs] at hs'
        cases hs'
        omega

/-- **No two ends go with the same bytes.** -/
theorem Ending.eq {lack : Lack} {e : End} (hending : Ending last e)
    (h : Frame.read last = .error lack) : endOf lack last = e := by
  cases hending with
  | clean hblank hshort =>
    cases hs : splitHeader last with
    | none =>
      rw [read_of_none hs, if_neg (by omega)] at h
      cases h
      rw [endOf, if_pos (List.all_eq_true.mpr hblank)]
    | some parts =>
      -- a header block of blanks would have been taken off
      obtain ⟨header, part⟩ := parts
      have hlast := eq_of_splitHeader hs
      have hlength := length_splitHeader hs
      have hzero : bodyLength header = 0 :=
        bodyLength_of_blank fun b hb => hblank b (by simp [hlast, hb])
      rw [read_of_some hs (by omega), if_pos hzero] at h
      cases h
  | insideHeader hopen hdata hshort =>
    rw [read_of_none (splitHeader_eq_none_iff.mpr hopen), if_neg (by omega)] at h
    cases h
    rw [endOf, if_neg]
    obtain ⟨b, hb, hnot⟩ := hdata
    intro hall
    simp [List.all_eq_true.mp hall b hb] at hnot
  | insideBody hlast hannounces hpart =>
    rw [hlast, read_of_announces hannounces.sole hannounces, if_pos hpart] at h
    cases h
    rfl
  | overlong hlong hopen =>
    cases hs : splitHeader last with
    | none =>
      rw [read_of_none hs, if_pos hlong] at h
      cases h
      rfl
    | some parts =>
      rw [read_of_overlong hs (hopen parts.1 parts.2 (eq_of_splitHeader hs))] at h
      cases h
      rfl
  | refused hlast hrefused =>
    rw [hlast, read_framed, message_of_refused hrefused] at h
    cases h
    rfl

/-! ## The whole stream -/

/-- What is read of a stream are pieces, one after another from its
beginning. -/
theorem exists_pieces (bytes : List UInt8) :
    ∃ pieces, bytes = pieces.flatten ++ (readAll bytes).2.2 ∧
      List.Forall₂ Piece pieces (readAll bytes).1 := by
  fun_induction readAll bytes with
  | case1 bytes lack h => exact ⟨[], rfl, .nil⟩
  | case2 bytes m rest h _ ms last hr ih =>
    obtain ⟨piece, rfl, hpiece⟩ := piece_of_read h
    obtain ⟨pieces, hrest, hpieces⟩ := ih
    rw [hr] at hrest hpieces
    exact ⟨piece :: pieces, by rw [List.flatten_cons, List.append_assoc, ← hrest],
      .cons hpiece hpieces⟩

/-- Pieces of four bytes at least are as many as the stream has bytes for. -/
theorem four_mul_length_le {pieces : List (List UInt8)} (h : ∀ piece ∈ pieces, 4 ≤ piece.length) :
    4 * pieces.length ≤ pieces.flatten.length := by
  induction pieces with
  | nil => exact Nat.le_refl _
  | cons piece pieces ih =>
    obtain ⟨hpiece, hpieces⟩ := List.forall_mem_cons.mp h
    have hle := ih hpieces
    rw [List.length_cons, List.flatten_cons, List.length_append]
    omega

/-- **Whatever bytes come, reading them stops.** What is taken off are pieces, each
read as it is by one call, and with the bytes left over they make up the
stream; each has at least four bytes, which bounds the number of calls. The
end is as the bytes left over say. -/
theorem stream_settled (bytes : List UInt8) :
    ∃ pieces, bytes = pieces.flatten ++ (readAll bytes).2.2 ∧
      List.Forall₂ Piece pieces (readAll bytes).1 ∧
      List.Forall₂ (fun piece m => 4 ≤ piece.length ∧
        ∀ rest, Frame.read (piece ++ rest) = .ok (m, rest)) pieces (readAll bytes).1 ∧
      (readAll bytes).1.length + 1 ≤ bytes.length / 4 + 1 ∧
      ∀ e, endOf (readAll bytes).2.1 (readAll bytes).2.2 = e ↔ Ending (readAll bytes).2.2 e := by
  obtain ⟨pieces, hbytes, hpieces⟩ := exists_pieces bytes
  have hread : List.Forall₂ (fun piece m => 4 ≤ piece.length ∧
      ∀ rest, Frame.read (piece ++ rest) = .ok (m, rest)) pieces (readAll bytes).1 :=
    hpieces.imp fun _ _ hpiece => ⟨hpiece.four_le, hpiece.read⟩
  have hfour : ∀ piece ∈ pieces, 4 ≤ piece.length := ((List.forall₂_and_left _ _).mp hread).1
  refine ⟨pieces, hbytes, hpieces, hread, ?_, fun e => ⟨?_, fun h => h.eq (read_rest bytes)⟩⟩
  · have hle := four_mul_length_le hfour
    have hcount := hpieces.length_eq
    have htotal := congrArg List.length hbytes
    rw [List.length_append] at htotal
    omega
  · rintro rfl
    exact ending_of_read (read_rest bytes)

/-- **Reading breaks off** at an integer that is too long, and at blanks that go on
for longer than a header block may: the end is neither clean nor within a
frame. -/
theorem stream_breaks_off :
    (∃ f : Framed, f.body = Utf8.encode (longInteger 4301) ∧
      readAll f.bytes = ([], .refused, f.bytes)) ∧
    readAll (List.replicate 65540 32) = ([], .overlong, List.replicate 65540 32) ∧
    ¬ ∀ bytes, endOf (readAll bytes).2.1 (readAll bytes).2.2 = .clean ∨
      ∃ cause, endOf (readAll bytes).2.1 (readAll bytes).2.2 = .cut cause := by
  have hlength := length_encode_longInteger 4301
  have hdigits : (Numeral.digits (Utf8.encode (longInteger 4301)).length).length ≤
      Numeral.maxDigits := by
    rw [hlength]
    simp [Numeral.digits, Numeral.maxDigits]
  let f : Framed := .ofText (longInteger 4301) (by omega) hdigits
  have hrefused : readAll f.bytes = ([], .refused, f.bytes) := by
    simpa using readAll_refused (f := f) (refused_longInteger (by decide)) []
  refine ⟨⟨f, rfl, hrefused⟩, ?_, fun h => ?_⟩
  · have hopen : ¬ separator <:+: List.replicate 65540 32 := fun hinside => by
      have hreturn := List.eq_of_mem_replicate (hinside.subset (List.mem_cons_self (a := 13)))
      exact absurd hreturn (by decide)
    rw [readAll_of_error (read_of_none (splitHeader_eq_none_iff.mpr hopen)), if_pos]
    rw [List.length_replicate]
    decide
  · rcases h f.bytes with hend | ⟨cause, hend⟩
    · rw [hrefused] at hend
      cases hend
    · rw [hrefused] at hend
      cases hend

end Frame

end Service

end LanguageRelay
