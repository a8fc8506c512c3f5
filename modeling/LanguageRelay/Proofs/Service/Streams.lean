import LanguageRelay.Service.Frame
/-!
# Streams of frames

A stream grows at its end while it is read. What the reader made of the
bytes there were, it makes of them still when more follow: a frame that was
complete is the same frame (`read_append`), and where reading broke off it
stays broken off (`read_append_broken`). So a stream may be read in pieces,
each time from what was left over: `readAll_append`.
-/

namespace LanguageRelay

namespace Service

namespace Frame

/-! ## The end of a header block -/

/-- The empty line that ends a header block, with the end of the line before. -/
def separator : List UInt8 := [13, 10, 13, 10]

/-- Where an empty line comes next, the header block is at its end. -/
theorem splitHeader_of_separator {bytes : List UInt8} (h : separator <+: bytes) :
    splitHeader bytes = some ([], bytes.drop 4) := by
  obtain ⟨rest, rfl⟩ := h
  rfl

/-- A byte that does not begin an empty line belongs to the header block. -/
theorem splitHeader_cons {b : UInt8} {bytes : List UInt8} (h : ¬ separator <+: b :: bytes) :
    splitHeader (b :: bytes) =
      (splitHeader bytes).map fun parts => (b :: parts.1, parts.2) := by
  rw [splitHeader]
  rintro rest rfl rfl
  exact h ⟨rest, rfl⟩

/-- What precedes the empty line, the line and what follows it make up the
whole. -/
theorem eq_of_splitHeader {bytes header rest : List UInt8}
    (h : splitHeader bytes = some (header, rest)) : bytes = header ++ separator ++ rest := by
  fun_induction splitHeader bytes generalizing header with
  | case1 => cases h
  | case2 =>
    cases h
    rfl
  | case3 b tail _ ih =>
    obtain ⟨⟨p, r⟩, hp, he⟩ := Option.map_eq_some_iff.1 h
    cases he
    rw [ih hp]
    rfl

/-- There is no end of a header block exactly where there is no empty line. -/
theorem splitHeader_eq_none_iff {bytes : List UInt8} :
    splitHeader bytes = none ↔ ¬ separator <:+: bytes := by
  induction bytes with
  | nil => simp [splitHeader, separator]
  | cons b bytes ih =>
    by_cases h : separator <+: b :: bytes
    · simp [splitHeader_of_separator h, h.isInfix]
    · simp [splitHeader_cons h, List.infix_cons_iff, h, ih]

/-- The header block, taken with the empty line after it, has no other such
line. -/
def Sole (header : List UInt8) : Prop :=
  ∀ a b, header ++ separator = a ++ separator ++ b → b = []

/-- A header block without a further empty line is split off whole. -/
theorem splitHeader_of_sole {header : List UInt8} (h : Sole header) (rest : List UInt8) :
    splitHeader (header ++ separator ++ rest) = some (header, rest) := by
  induction header with
  | nil => rfl
  | cons x header ih =>
    have hn : ¬ separator <+: x :: (header ++ separator ++ rest) := by
      intro hp
      have hp' : separator <+: x :: header ++ separator :=
        List.prefix_of_prefix_length_le hp ⟨rest, rfl⟩ (by simp; omega)
      obtain ⟨b, hb⟩ := hp'
      have hl := congrArg List.length hb
      rw [h [] b hb.symm] at hl
      simp [separator] at hl
    have ht : Sole header := fun a b he => h (x :: a) b (congrArg (x :: ·) he)
    rw [List.cons_append, List.cons_append, splitHeader_cons hn, ih ht]
    rfl

/-- More bytes do not move the end of the header block. -/
theorem splitHeader_append {bytes header rest : List UInt8} (more : List UInt8)
    (h : splitHeader bytes = some (header, rest)) :
    splitHeader (bytes ++ more) = some (header, rest ++ more) := by
  induction bytes generalizing header with
  | nil => cases h
  | cons b bytes ih =>
    by_cases hp : separator <+: b :: bytes
    · rw [splitHeader_of_separator hp] at h
      cases h
      obtain ⟨rest, hr⟩ := hp
      rw [← hr]
      rfl
    · rw [splitHeader_cons hp] at h
      obtain ⟨⟨p, r⟩, hs, he⟩ := Option.map_eq_some_iff.1 h
      cases he
      have hl := length_splitHeader hs
      have hlonger : b :: bytes <+: b :: (bytes ++ more) := ⟨more, rfl⟩
      have hn : ¬ separator <+: b :: (bytes ++ more) := fun h' =>
        hp (List.prefix_of_prefix_length_le h' hlonger (by simp [separator]; omega))
      rw [List.cons_append, splitHeader_cons hn, ih hs]
      rfl

/-- A header block that ends only within further bytes is as long as the bytes
there were, but for the part of the empty line they may hold. -/
theorem length_of_splitHeader_append {bytes more header rest : List UInt8}
    (hn : splitHeader bytes = none) (h : splitHeader (bytes ++ more) = some (header, rest)) :
    bytes.length < header.length + 4 := by
  refine Nat.lt_of_not_le fun hl => splitHeader_eq_none_iff.1 hn ?_
  have hlonger : bytes <+: bytes ++ more := ⟨more, rfl⟩
  have hp : header ++ separator <+: bytes :=
    List.prefix_of_prefix_length_le ⟨rest, (eq_of_splitHeader h).symm⟩ hlonger
      (by simp [separator]; omega)
  exact (List.suffix_append header separator).isInfix.trans hp.isInfix

/-! ## One frame -/

/-- What is read where there is no end of a header block. -/
theorem read_of_none {bytes : List UInt8} (h : splitHeader bytes = none) :
    read bytes = .error (if headerLimit + 3 < bytes.length then .overlong else .header) := by
  rw [read, h]

/-- What is read after a header block that is too long. -/
theorem read_of_overlong {bytes header rest : List UInt8}
    (h : splitHeader bytes = some (header, rest)) (hl : headerLimit < header.length) :
    read bytes = .error .overlong := by
  simp [read, h, hl]

/-- What is read after a header block of admissible length. -/
theorem read_of_some {bytes header rest : List UInt8}
    (h : splitHeader bytes = some (header, rest)) (hl : header.length ≤ headerLimit) :
    read bytes =
      if bodyLength header = 0 then .ok (.error .invalidLength, rest)
      else if rest.length < bodyLength header then .error .body
      else (message (rest.take (bodyLength header))).map fun m =>
        (m, rest.drop (bodyLength header)) := by
  simp [read, h, Nat.not_lt.2 hl]

/-- Reading cannot go on, whatever bytes follow. -/
def Lack.isFinal (lack : Lack) : Bool := lack == .overlong || lack == .refused

/-- After a whole header block more bytes matter only to a body that is short. -/
theorem read_append_of_header {bytes header rest : List UInt8} (more : List UInt8)
    (hs : splitHeader bytes = some (header, rest)) (hb : read bytes ≠ .error .body) :
    read (bytes ++ more) = (read bytes).map fun r => (r.1, r.2 ++ more) := by
  have hs' := splitHeader_append more hs
  by_cases hl : header.length ≤ headerLimit
  · rw [read_of_some hs hl] at hb ⊢
    rw [read_of_some hs' hl]
    by_cases h0 : bodyLength header = 0
    · rw [if_pos h0, if_pos h0]
      rfl
    · rw [if_neg h0] at hb ⊢
      rw [if_neg h0]
      have hlong : ¬ rest.length < bodyLength header := fun hshort => hb (if_pos hshort)
      have hlong' : ¬ (rest ++ more).length < bodyLength header := by
        rw [List.length_append]
        omega
      rw [if_neg hlong, if_neg hlong', List.take_append_of_le_length (by omega),
        List.drop_append_of_le_length (by omega)]
      cases message (rest.take (bodyLength header)) <;> rfl
  · rw [read_of_overlong hs (by omega), read_of_overlong hs' (by omega)]
    rfl

/-- A complete frame is the same frame when more bytes follow. -/
theorem read_append {bytes rest : List UInt8} {m : Except ProtocolFault Json} (more : List UInt8)
    (h : read bytes = .ok (m, rest)) : read (bytes ++ more) = .ok (m, rest ++ more) := by
  cases hs : splitHeader bytes with
  | none =>
    rw [read_of_none hs] at h
    cases h
  | some parts =>
    rw [read_append_of_header more hs (by simp [h]), h]
    rfl

/-- Where reading broke off, more bytes do not let it go on. -/
theorem read_append_broken {bytes : List UInt8} {lack : Lack} (more : List UInt8)
    (h : read bytes = .error lack) (hf : lack.isFinal) : read (bytes ++ more) = .error lack := by
  cases hs : splitHeader bytes with
  | none =>
    rw [read_of_none hs] at h
    by_cases ho : headerLimit + 3 < bytes.length
    · rw [if_pos ho] at h
      cases h
      cases hs' : splitHeader (bytes ++ more) with
      | none => rw [read_of_none hs', if_pos (by rw [List.length_append]; omega)]
      | some parts =>
        obtain ⟨header, after⟩ := parts
        have hl := length_of_splitHeader_append hs hs'
        exact read_of_overlong hs' (by omega)
    · rw [if_neg ho] at h
      cases h
      cases hf
  | some parts =>
    have hbody : read bytes ≠ .error .body := by
      rintro hbody
      cases h.symm.trans hbody
      cases hf
    rw [read_append_of_header more hs hbody, h]
    rfl

/-! ## The whole stream -/

/-- Where no frame can be taken off, nothing is read. -/
theorem readAll_of_error {bytes : List UInt8} {lack : Lack} (h : read bytes = .error lack) :
    readAll bytes = ([], lack, bytes) := by
  unfold readAll
  split
  · rename_i e he
    rw [h] at he
    cases he
    rfl
  · rename_i he
    rw [h] at he
    cases he

/-- A frame that can be taken off comes before the frames after it. -/
theorem readAll_of_ok {bytes rest : List UInt8} {m : Except ProtocolFault Json}
    (h : read bytes = .ok (m, rest)) :
    readAll bytes = (m :: (readAll rest).1, (readAll rest).2) := by
  rw [readAll]
  split
  · rename_i he
    rw [h] at he
    cases he
  · rename_i he
    rw [h] at he
    cases he
    rfl

/-- There is nothing to read in no bytes. -/
theorem readAll_nil : readAll [] = ([], .header, []) := readAll_of_error rfl

/-- Reading stops where no frame can be taken off. -/
theorem read_rest (bytes : List UInt8) :
    read (readAll bytes).2.2 = .error (readAll bytes).2.1 := by
  fun_induction readAll bytes with
  | case1 bytes lack h => exact h
  | case2 bytes m rest h _ ms last hr ih => rwa [hr] at ih

/-- **A stream may be read in pieces.** What is read of the bytes there are
stays as it is, and reading goes on with the bytes left over, unless it broke
off. -/
theorem readAll_append (bytes more : List UInt8) :
    readAll (bytes ++ more) =
      if (readAll bytes).2.1.isFinal then
        ((readAll bytes).1, (readAll bytes).2.1, (readAll bytes).2.2 ++ more)
      else
        ((readAll bytes).1 ++ (readAll ((readAll bytes).2.2 ++ more)).1,
          (readAll ((readAll bytes).2.2 ++ more)).2) := by
  fun_induction readAll bytes with
  | case1 bytes lack h =>
    split
    case isTrue hf => exact readAll_of_error (read_append_broken more h hf)
    case isFalse => rfl
  | case2 bytes m rest h _ ms last hr ih =>
    rw [readAll_of_ok (read_append more h), ih, hr]
    split <;> rfl

end Frame

end Service

end LanguageRelay
