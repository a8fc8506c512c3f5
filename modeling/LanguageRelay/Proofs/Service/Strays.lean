import LanguageRelay.Proofs.Service.Framing
/-!
# Stray output between frames

A header block without a length is dropped alone; there is no body to skip.
So what stands before a frame and is none itself is read together with the
header of the frame, as one block, up to the next empty line.

If the stray bytes end a line, the line that gives the length is still a line
of its own and the frame is read (`read_at_line_start`). If they do not, the
line is torn: its beginning belongs to the line before, the block has no
length, and what is dropped is the header of the frame (`read_torn`). Its
body is now the stray output before the next frame. A body that ends with a
bare line feed, the usual end of a line on most systems, does not end a
header line, so the next header is torn by it as well. That goes on for as
long as no body ends with carriage return and line feed: `readAll_torn`.
-/

namespace LanguageRelay

namespace Service

namespace Frame

/-! ## Lines that are joined -/

/-- Bytes before a line are read as part of it, from their own last line end
on. -/
theorem headerLines_append_line (stray : List UInt8) {line : List UInt8}
    (hl : ¬ lineEnd <:+: line) (hn : line.head? ≠ some 10) :
    ∃ before last, headerLines stray = before ++ [last] ∧
      headerLines (stray ++ line) = before ++ [last ++ line] := by
  fun_induction headerLines stray with
  | case1 => exact ⟨[], [], rfl, headerLines_single hl⟩
  | case2 after ih =>
    obtain ⟨before, last, hs, ha⟩ := ih
    exact ⟨[] :: before, last, by rw [hs]; rfl, by
      rw [List.cons_append, List.cons_append, headerLines, ha]; rfl⟩
  | case3 b rest hb ih =>
    obtain ⟨before, last, hs, ha⟩ := ih
    have hc : headerLines (b :: (rest ++ line)) = consByte b (headerLines (rest ++ line)) := by
      rw [headerLines]
      rintro after rfl he
      cases rest with
      | nil => exact hn (by rw [← List.nil_append line, he]; rfl)
      | cons c rest =>
        cases he
        exact hb _ rfl rfl
    rw [List.cons_append, hc, ha, hs]
    cases before with
    | nil => exact ⟨[], b :: last, rfl, rfl⟩
    | cons first before => exact ⟨(b :: first) :: before, last, rfl, rfl⟩

/-- A line about the length is one for its beginning alone. -/
theorem lengthValue?_append {line value : List UInt8} (h : lengthValue? line = some value)
    (more : List UInt8) : lengthValue? (line ++ more) = some (value ++ more) := by
  unfold lengthValue? at h ⊢
  split at h
  case isFalse => cases h
  case isTrue hn =>
    cases h
    have hl : lengthName.length ≤ line.length := by
      have := congrArg List.length hn
      simp only [List.length_map, List.length_take] at this
      omega
    rw [List.take_append_of_le_length hl, List.drop_append_of_le_length hl, if_pos hn]

/-- **A line that is torn is not about the length.** No proper beginning of
the name is also an end of it, so nothing but the whole name can stand before
the value. -/
theorem lengthValue?_torn {stray line value : List UInt8} (hs : lengthValue? stray = none)
    (hn : stray ≠ []) (h : lengthValue? line = some value) :
    lengthValue? (stray ++ line) = none := by
  have hborder : ∀ k < lengthName.length, 0 < k →
      lengthName.drop k ≠ lengthName.take (lengthName.length - k) := by decide
  unfold lengthValue? at hs h ⊢
  split at h
  case isFalse => cases h
  case isTrue hl =>
    rw [if_neg]
    intro he
    rcases Nat.lt_or_ge stray.length lengthName.length with hk | hk
    · refine hborder stray.length hk (List.length_pos_iff.2 hn) ?_
      have hd : (line.take (lengthName.length - stray.length)).map lowerByte =
          lengthName.drop stray.length := by
        have hd := congrArg (List.drop stray.length) he
        rwa [List.take_append, List.take_of_length_le (Nat.le_of_lt hk), List.map_append,
          List.drop_left' (List.length_map _)] at hd
      have ht : lengthName.take (lengthName.length - stray.length) =
          (line.take (lengthName.length - stray.length)).map lowerByte := by
        calc lengthName.take (lengthName.length - stray.length)
            = ((line.take lengthName.length).map lowerByte).take
                (lengthName.length - stray.length) := by rw [hl]
          _ = (line.take (lengthName.length - stray.length)).map lowerByte := by
              rw [← List.map_take, List.take_take, Nat.min_eq_left (Nat.sub_le _ _)]
      rw [← hd, ht]
    · rw [List.take_append_of_le_length hk] at he
      rw [if_pos he] at hs
      cases hs

/-! ## Stray bytes -/

/-- Bytes that hold no empty line and no line about the length. -/
structure Stray (bytes : List UInt8) : Prop where
  unended : ¬ separator <:+: bytes
  mute : ∀ line ∈ headerLines bytes, lengthValue? line = none

/-- What comes after the bytes begins a line. -/
def AtLineStart (bytes : List UInt8) : Prop := (headerLines bytes).getLast? = some []

instance (bytes : List UInt8) : Decidable (AtLineStart bytes) :=
  inferInstanceAs (Decidable (_ = _))

/-- Stray bytes and a header block have no empty line between them. -/
theorem sole_append {stray : List UInt8} {b : UInt8} {header : List UInt8}
    (hs : ¬ separator <:+: stray) (hh : Sole (b :: header)) (hb : b ≠ 13 ∧ b ≠ 10) :
    Sole (stray ++ b :: header) := by
  intro a rest he
  rw [List.append_assoc, List.append_assoc, List.append_eq_append_iff] at he
  rcases he with ⟨p, -, hp⟩ | ⟨p, hp, hr⟩
  · exact hh p rest (by rw [hp, List.append_assoc])
  · -- the empty line begins in the stray bytes: it would have to end there
    simp only [separator, List.cons_append, List.nil_append] at hr
    rcases p with _ | ⟨_, _ | ⟨_, _ | ⟨_, _ | ⟨_, p⟩⟩⟩⟩
    · exact hh [] rest hr.symm
    · injection hr with _ hr
      injection hr with h10 _
      exact absurd h10.symm hb.2
    · injection hr with _ hr
      injection hr with _ hr
      injection hr with h13 _
      exact absurd h13.symm hb.1
    · injection hr with _ hr
      injection hr with _ hr
      injection hr with _ hr
      injection hr with h10 _
      exact absurd h10.symm hb.2
    · refine absurd ?_ hs
      simp only [List.cons_append, List.cons.injEq] at hr
      obtain ⟨rfl, rfl, rfl, rfl, -⟩ := hr
      exact hp ▸ ⟨a, p, by simp [separator]⟩

/-! ## Notices -/

/-- A frame as the analysis server writes it: one header line, and an object
in one line of JSON, which ends with a line feed or with carriage return and
line feed. -/
structure Notice extends Framed where
  fields : Fields
  single : ¬ lineEnd <:+: header
  named : (lengthValue? header).isSome
  object : ∃ text, body = Utf8.encode text ∧ Json.read text = .ok (.obj fields)
  line : ∃ line, 13 ∉ line ∧ (body = line ++ [10] ∨ body = line ++ lineEnd)

/-- A byte that is a small letter in lower case is that letter, small or
capital. -/
theorem of_lowerByte {b : UInt8} (h : lowerByte b = 99) : b = 99 ∨ b = 67 := by
  unfold lowerByte at h
  split at h
  · exact .inr ((UInt8.add_left_inj 32).1 (h.trans (by decide)))
  · exact .inl h

namespace Notice

variable (f : Notice)

/-- The object in the body is what is read of it. -/
theorem message_body : message f.body = .ok (.ok (.obj f.fields)) := by
  obtain ⟨text, he, hr⟩ := f.object
  simp [message, he, Utf8.decode?_encode, hr]

/-- The header line begins with a letter. -/
theorem header_eq : ∃ b header, f.header = b :: header ∧ b ≠ 13 ∧ b ≠ 10 := by
  have hn := f.named
  cases hh : f.header with
  | nil =>
    rw [hh] at hn
    cases hn
  | cons b header =>
    refine ⟨b, header, rfl, ?_⟩
    rw [hh] at hn
    unfold lengthValue? at hn
    split at hn
    case isFalse => cases hn
    case isTrue he =>
      have hb : lowerByte b = 99 := (List.cons.inj he).1
      constructor <;> rintro rfl <;> exact absurd hb (by decide)

/-- A text that begins like a line about the length is no JSON. -/
theorem lengthValue?_body : lengthValue? f.body = none := by
  obtain ⟨text, he, hr⟩ := f.object
  rw [he]
  unfold lengthValue?
  rw [if_neg]
  intro hn
  cases text with
  | nil => cases hr
  | cons c text =>
    obtain ⟨b, bytes, hb⟩ := List.exists_cons_of_ne_nil (Utf8.encodeChar_ne_nil c)
    rw [Utf8.encode, List.flatMap_cons, hb] at hn
    have hl : lowerByte b = 99 := (List.cons.inj hn).1
    rcases of_lowerByte hl with rfl | rfl
    · have hc : c.toNat = ('c').toNat := Utf8.toNat_of_encodeChar hb (by decide)
      rw [Char.toNat_inj.1 hc] at hr
      cases hr
    · have hc : c.toNat = ('C').toNat := Utf8.toNat_of_encodeChar hb (by decide)
      rw [Char.toNat_inj.1 hc] at hr
      cases hr

/-- The body of a notice is stray output once its header is gone. -/
theorem stray_body : Stray f.body := by
  obtain ⟨line, hcr, hb⟩ := f.line
  have hv := f.lengthValue?_body
  have hl : ¬ lineEnd <:+: line := lineEnd_not_infix hcr
  constructor
  · intro hi
    have hc := hi.sublist.count_le 13
    have hs : separator.count 13 = 2 := rfl
    have hz : line.count 13 = 0 := List.count_eq_zero_of_not_mem hcr
    rcases hb with hb | hb
    · rw [hb, List.count_append, hz, hs] at hc
      exact absurd hc (by decide)
    · rw [hb, List.count_append, hz, hs] at hc
      exact absurd hc (by decide)
  · rcases hb with hb | hb
    · have hn : ¬ lineEnd <:+: f.body := lineEnd_not_infix (by rw [hb]; simpa using hcr)
      rw [headerLines_single hn]
      simpa using hv
    · have hh : headerLines f.body = [line, []] := by
        rw [hb, ← List.append_nil (line ++ lineEnd), headerLines_append hl]
        rfl
      have hn : lengthValue? line = none := by
        cases h : lengthValue? line with
        | none => rfl
        | some value => rw [hb, lengthValue?_append h] at hv; cases hv
      rw [hh]
      simpa using ⟨hn, rfl⟩

/-- It ends a line of a header block exactly if it ends with carriage return
and line feed. -/
theorem atLineStart_body : AtLineStart f.body ↔ lineEnd <:+ f.body := by
  obtain ⟨line, hcr, hb⟩ := f.line
  have hl : ¬ lineEnd <:+: line := lineEnd_not_infix hcr
  rcases hb with hb | hb
  · have hn : ¬ lineEnd <:+: f.body := lineEnd_not_infix (by rw [hb]; simpa using hcr)
    refine iff_of_false ?_ fun h => hn h.isInfix
    rw [AtLineStart, headerLines_single hn, hb]
    simp
  · refine iff_of_true ?_ ⟨line, hb.symm⟩
    rw [AtLineStart, hb, ← List.append_nil (line ++ lineEnd), headerLines_append hl]
    rfl

/-- The notice of a text, behind the header line that gives its length. -/
def ofText (text : List Char) (fields : Fields) (hr : Json.read text = .ok (.obj fields))
    (hd : (Numeral.digits (Utf8.encode text).length).length ≤ Numeral.maxDigits)
    (hl : ∃ line, 13 ∉ line ∧
      (Utf8.encode text = line ++ [10] ∨ Utf8.encode text = line ++ lineEnd)) : Notice where
  toFramed := Framed.ofText text (length_pos_of_read hr) hd
  fields := fields
  single := lineEnd_not_infix (not_mem_lengthLine _)
  named := by
    rw [show (Framed.ofText text _ hd).header = Utf8.encode (lengthLine _) from rfl,
      lengthValue?_lengthLine]
    rfl
  object := ⟨text, rfl, hr⟩
  line := hl

end Notice

/-! ## A frame behind stray bytes -/

variable {stray : List UInt8} {f : Notice}

/-- The stray bytes and the header of the frame are read as one header block. -/
theorem splitHeader_stray (h : Stray stray) (f : Notice) (rest : List UInt8) :
    splitHeader (stray ++ (f.bytes ++ rest)) = some (stray ++ f.header, f.body ++ rest) := by
  obtain ⟨b, header, hh, hb⟩ := f.header_eq
  have hs : Sole (stray ++ f.header) := by
    rw [hh]
    exact sole_append h.unended (hh ▸ f.announces.sole) hb
  have he : stray ++ (f.bytes ++ rest) = stray ++ f.header ++ separator ++ (f.body ++ rest) := by
    simp [Framed.bytes]
  rw [he, splitHeader_of_sole hs]

/-- The lines of that block: the last line of the stray bytes has grown by the
header, and all before it stay as they are. -/
theorem headerLines_stray (h : Stray stray) (f : Notice) :
    ∃ before last, headerLines (stray ++ f.header) = before ++ [last ++ f.header] ∧
      (∀ line ∈ before, lengthValue? line = none) ∧ lengthValue? last = none ∧
      (AtLineStart stray ↔ last = []) := by
  obtain ⟨b, header, hh, -, hb⟩ := f.header_eq
  obtain ⟨before, last, hsl, hsh⟩ :=
    headerLines_append_line stray f.single (by rw [hh]; simpa using hb)
  refine ⟨before, last, hsh, fun line hm => ?_, ?_, ?_⟩
  · exact h.mute line (by rw [hsl]; exact List.mem_append_left _ hm)
  · exact h.mute last (by rw [hsl]; simp)
  · rw [AtLineStart, hsl]
    simp

/-- **Behind stray bytes that end a line the frame is read.** -/
theorem read_at_line_start (h : Stray stray) (hs : AtLineStart stray)
    (hl : stray.length + f.header.length ≤ headerLimit) (rest : List UInt8) :
    read (stray ++ (f.bytes ++ rest)) = .ok (.ok (.obj f.fields), rest) := by
  obtain ⟨before, last, hlines, hbefore, -, hstart⟩ := headerLines_stray h f
  have hf : (headerLines (stray ++ f.header)).findSome? lengthValue? =
      (headerLines f.header).findSome? lengthValue? := by
    rw [hlines, hstart.1 hs, List.nil_append, List.findSome?_append,
      List.findSome?_eq_none_iff.2 hbefore, headerLines_single f.single]
    rfl
  have hn : bodyLength (stray ++ f.header) = f.body.length := by
    rw [bodyLength, hf, ← bodyLength, f.announces.bodyLength]
  rw [read_of_some (splitHeader_stray h f rest) (by rw [List.length_append]; exact hl), hn,
    if_neg (Nat.ne_of_gt f.announces.positive), if_neg (by simp), List.take_left, List.drop_left,
    f.message_body]
  rfl

/-- **Behind stray bytes that do not end a line the header is lost.** What is
left begins with the body. -/
theorem read_torn (h : Stray stray) (hs : ¬ AtLineStart stray)
    (hl : stray.length + f.header.length ≤ headerLimit) (rest : List UInt8) :
    read (stray ++ (f.bytes ++ rest)) = .ok (.error .invalidLength, f.body ++ rest) := by
  obtain ⟨before, last, hlines, hbefore, hlast, hstart⟩ := headerLines_stray h f
  have hf : (headerLines (stray ++ f.header)).findSome? lengthValue? = none := by
    obtain ⟨value, hv⟩ := Option.isSome_iff_exists.1 f.named
    rw [hlines, List.findSome?_eq_none_iff]
    intro line hm
    rcases List.mem_append.1 hm with hm | hm
    · exact hbefore line hm
    · rw [List.mem_singleton.1 hm]
      exact lengthValue?_torn hlast (mt hstart.2 hs) hv
  have hn : bodyLength (stray ++ f.header) = 0 := by
    rw [bodyLength, hf]
  rw [read_of_some (splitHeader_stray h f rest) (by rw [List.length_append]; exact hl), hn,
    if_pos rfl]

/-! ## Frames behind stray bytes -/

/-- Notices with nothing before them are read one by one. -/
theorem readAll_notices (fs : List Notice) :
    readAll (fs.flatMap (·.bytes)) = (fs.map fun f => .ok (.obj f.fields), .header, []) := by
  induction fs with
  | nil => exact readAll_nil
  | cons f fs ih =>
    have hf : read (f.bytes ++ fs.flatMap (·.bytes)) =
        .ok (.ok (.obj f.fields), fs.flatMap (·.bytes)) := by
      rw [read_framed, f.message_body]
      rfl
    rw [List.flatMap_cons, readAll_of_ok hf, ih]
    rfl

/-- A body of at most `room` bytes leaves room for a header block behind it. -/
def Fits (room : Nat) (f : Notice) : Prop :=
  f.body.length ≤ room ∧ room + f.header.length ≤ headerLimit

/-- Nothing is read of stray bytes alone. -/
theorem readAll_stray {stray : List UInt8} (h : Stray stray) (hl : stray.length ≤ headerLimit) :
    readAll stray = ([], .header, stray) := by
  have hn := read_of_none (splitHeader_eq_none_iff.2 h.unended)
  rw [if_neg (by omega)] at hn
  exact readAll_of_error hn

/-- Stray bytes that end a line cost no frame behind them. -/
theorem readAll_at_line_start {stray : List UInt8} {room : Nat} {fs : List Notice}
    (h : Stray stray) (hs : AtLineStart stray) (hr : stray.length ≤ room) (hl : room ≤ headerLimit)
    (hf : ∀ f ∈ fs, Fits room f) :
    ∃ rest, readAll (stray ++ fs.flatMap (·.bytes)) =
      (fs.map fun f => .ok (.obj f.fields), .header, rest) := by
  cases fs with
  | nil => exact ⟨stray, by simpa using readAll_stray h (by omega)⟩
  | cons f fs =>
    obtain ⟨-, hh⟩ := hf f List.mem_cons_self
    refine ⟨[], ?_⟩
    rw [List.flatMap_cons, readAll_of_ok (read_at_line_start h hs (by omega) _), readAll_notices]
    rfl

/-- The notices that are read where the line before the first is torn: those
after the first whose body ends a line. -/
def unlost (fs : List Notice) : List Notice :=
  (fs.dropWhile fun f => !(lineEnd.isSuffixOf f.body)).drop 1

/-- A body that ends a line saves what follows it. -/
theorem unlost_cons_of_suffix {f : Notice} (h : lineEnd <:+ f.body) (fs : List Notice) :
    unlost (f :: fs) = fs := by
  rw [unlost, List.dropWhile_cons_of_neg (by simpa using h)]
  rfl

/-- A body that does not end a line saves nothing. -/
theorem unlost_cons_of_not_suffix {f : Notice} (h : ¬ lineEnd <:+ f.body) (fs : List Notice) :
    unlost (f :: fs) = unlost fs := by
  rw [unlost, List.dropWhile_cons_of_pos (by simpa [Bool.eq_false_iff] using h), unlost]

/-- No more are read than there are. -/
theorem length_unlost_le (fs : List Notice) : (unlost fs).length ≤ fs.length := by
  have hd := (List.dropWhile_sublist (l := fs) fun f => !(lineEnd.isSuffixOf f.body)).length_le
  rw [unlost, List.length_drop]
  omega

/-- **A torn line costs every frame up to the first whose body ends a line.**
Each of them leaves its body behind, which tears the next line. -/
theorem readAll_torn {stray : List UInt8} {room : Nat} {fs : List Notice} (h : Stray stray)
    (hs : ¬ AtLineStart stray) (hr : stray.length ≤ room) (hl : room ≤ headerLimit)
    (hf : ∀ f ∈ fs, Fits room f) :
    ∃ rest, readAll (stray ++ fs.flatMap (·.bytes)) =
      (List.replicate (fs.length - (unlost fs).length) (.error .invalidLength) ++
        (unlost fs).map fun f => .ok (.obj f.fields), .header, rest) := by
  induction fs generalizing stray with
  | nil => exact ⟨stray, by simpa [unlost] using readAll_stray h (by omega)⟩
  | cons f fs ih =>
    obtain ⟨hb, hh⟩ := hf f List.mem_cons_self
    have hfs : ∀ f ∈ fs, Fits room f := fun g hg => hf g (List.mem_cons_of_mem _ hg)
    rw [List.flatMap_cons, readAll_of_ok (read_torn h hs (by omega) _)]
    by_cases he : lineEnd <:+ f.body
    · obtain ⟨rest, ha⟩ := readAll_at_line_start f.stray_body (f.atLineStart_body.2 he) hb hl hfs
      have hn : (f :: fs).length - fs.length = 1 := by rw [List.length_cons]; omega
      exact ⟨rest, by rw [ha, unlost_cons_of_suffix he, hn]; rfl⟩
    · obtain ⟨rest, ha⟩ := ih f.stray_body (mt f.atLineStart_body.1 he) hb hfs
      have hn : (f :: fs).length - (unlost fs).length = fs.length - (unlost fs).length + 1 := by
        have := length_unlost_le fs
        rw [List.length_cons]
        omega
      exact ⟨rest, by rw [ha, unlost_cons_of_not_suffix he, hn, List.replicate_succ]; rfl⟩

/-- A header block that gives no length costs itself alone. -/
theorem readAll_block {block : List UInt8} (hb : Sole block)
    (hm : ∀ line ∈ headerLines block, lengthValue? line = none)
    (hl : block.length ≤ headerLimit) (fs : List Notice) :
    readAll (block ++ separator ++ fs.flatMap (·.bytes)) =
      (.error .invalidLength :: fs.map fun f => .ok (.obj f.fields), .header, []) := by
  have hn : bodyLength block = 0 := by
    rw [bodyLength, List.findSome?_eq_none_iff.2 hm]
  have hr := read_of_some (splitHeader_of_sole hb (fs.flatMap (·.bytes))) hl
  rw [hn, if_pos rfl] at hr
  rw [readAll_of_ok hr, readAll_notices]

/-- **What stray output costs.** A header block of its own, and bytes that end
a line, cost no frame. Bytes that do not end a line cost every frame up to the
first whose body ends with carriage return and line feed. -/
theorem frames_behind_stray (fs : List Notice) :
    (∀ block, Sole block →
      (∀ line ∈ headerLines block, lengthValue? line = none) → block.length ≤ headerLimit →
      readAll (block ++ separator ++ fs.flatMap (·.bytes)) =
        (.error .invalidLength :: fs.map fun f => .ok (.obj f.fields), .header, [])) ∧
    (∀ stray room, Stray stray → stray.length ≤ room → room ≤ headerLimit →
      (∀ f ∈ fs, Fits room f) →
      ∃ rest, readAll (stray ++ fs.flatMap (·.bytes)) =
        (if AtLineStart stray then fs.map fun f => .ok (.obj f.fields)
        else List.replicate (fs.length - (unlost fs).length) (.error .invalidLength) ++
          (unlost fs).map fun f => .ok (.obj f.fields), .header, rest)) := by
  refine ⟨fun block hb hm hl => readAll_block hb hm hl fs, fun stray room h hr hl hf => ?_⟩
  by_cases hs : AtLineStart stray
  · rw [if_pos hs]
    exact readAll_at_line_start h hs hr hl hf
  · rw [if_neg hs]
    exact readAll_torn h hs hr hl hf

/-- A number below ten can be announced. -/
theorem length_digits_of_lt {n : Nat} (h : n < 10) : (Numeral.digits n).length = 1 := by
  rw [Numeral.digits, if_pos h]
  rfl

/-- An object without members, on a line that ends with a line feed. -/
def fed : Notice :=
  .ofText "\x7b\x7d\n".toList [] rfl (by rw [length_digits_of_lt (by decide)]; decide)
    ⟨Utf8.encode "\x7b\x7d".toList, by decide, .inl rfl⟩

/-- The same, with a carriage return before the line feed. -/
def returned : Notice :=
  .ofText "\x7b\x7d\r\n".toList [] rfl (by rw [length_digits_of_lt (by decide)]; decide)
    ⟨Utf8.encode "\x7b\x7d".toList, by decide, .inr rfl⟩

/-- A word that nobody asked for. -/
def oops : List UInt8 := Utf8.encode "oops".toList

/-- It is stray output. -/
theorem stray_oops : Stray oops := ⟨by decide, by decide⟩

/-- There is room for both notices. -/
theorem fits_fed : Fits 4 fed ∧ Fits 4 returned := by
  refine ⟨⟨by decide, ?_⟩, by decide, ?_⟩
  · rw [show fed.header = Utf8.encode (lengthLine 3) from rfl, length_encode_lengthLine,
      length_digits_of_lt (by decide)]
    decide
  · rw [show returned.header = Utf8.encode (lengthLine 4) from rfl, length_encode_lengthLine,
      length_digits_of_lt (by decide)]
    decide

/-- Behind a header block of one word all is read; behind the word alone all
but the frames up to the first that ends a line. -/
theorem frames_behind_stray_oops :
    (Sole oops ∧ (∀ line ∈ headerLines oops, lengthValue? line = none) ∧
      readAll (oops ++ separator ++ [fed, fed].flatMap (·.bytes)) =
        ([.error .invalidLength, .ok (.obj []), .ok (.obj [])], .header, [])) ∧
    Stray oops ∧ ¬ AtLineStart oops ∧
      ∃ rest, readAll (oops ++ [fed, returned, fed].flatMap (·.bytes)) =
        ([.error .invalidLength, .error .invalidLength, .ok (.obj [])], .header, rest) := by
  have hs : Sole oops := sole_of_not_mem (by decide)
  have hm : ∀ line ∈ headerLines oops, lengthValue? line = none := stray_oops.mute
  refine ⟨⟨hs, hm, (frames_behind_stray [fed, fed]).1 oops hs hm (by decide)⟩, stray_oops,
    by decide, ?_⟩
  have hf : ∀ f ∈ [fed, returned, fed], Fits 4 f := by
    intro f hf
    simp only [List.mem_cons, List.not_mem_nil, or_false] at hf
    rcases hf with rfl | rfl | rfl
    exacts [fits_fed.1, fits_fed.2, fits_fed.1]
  obtain ⟨rest, hr⟩ := (frames_behind_stray [fed, returned, fed]).2 oops 4 stray_oops (by decide)
    (by decide) hf
  exact ⟨rest, hr⟩

/-- **Bare line feeds never end it.** Behind one stray word every frame is
lost, however many follow. -/
theorem all_frames_lost_behind_oops :
    Stray oops ∧ ∀ n, ∃ rest, readAll (oops ++ (List.replicate n fed).flatMap (·.bytes)) =
      (List.replicate n (.error .invalidLength), .header, rest) := by
  refine ⟨stray_oops, fun n => ?_⟩
  have hf : ∀ f ∈ List.replicate n fed, Fits 4 f := fun f hf =>
    List.eq_of_mem_replicate hf ▸ fits_fed.1
  have hu : unlost (List.replicate n fed) = [] := by
    have hd : ¬ lineEnd <:+ fed.body := by decide
    induction n with
    | zero => rfl
    | succ n ih =>
      rw [List.replicate_succ, unlost_cons_of_not_suffix hd]
      exact ih fun f hm => List.eq_of_mem_replicate hm ▸ fits_fed.1
  obtain ⟨rest, hr⟩ := readAll_torn stray_oops (by decide) (by decide) (by decide) hf
  exact ⟨rest, by rw [hr, hu]; simp⟩

end Frame

end Service

end LanguageRelay
