import LanguageRelay.Child.Keeper
import LanguageRelay.Proofs.Service.Framing
/-!
# What the keeper hears of a child

A child writes when it likes and as much as it likes, so the keeper gets its
output in pieces that have nothing to do with the frames. `hear` is the
child writing one piece after another. The keeper's state after it depends
on the bytes alone and not on how they were cut (`heard_hear`): it has
passed on what is read of them as one stream, and kept what is left over.

From there the frames of the output come through one by one, in order
(`hear_framed`), until a body is refused.
-/

namespace LanguageRelay

namespace Child

open Service Frame

/-! ## Passing on -/

/-- What the keeper does with what was read of a frame. -/
def passing (accepts : Json → Bool) : Except ProtocolFault Json → List Effect
  | .error fault => [.logged .error ("dropping unreadable tsserver output: " ++ fault.message)]
  | .ok message =>
    .passed message (!accepts message) ::
      if accepts message then [] else [.logged .error "tsserver message handler failed"]

/-- Passing on changes nothing but the outbox. -/
theorem pass_eq (c : Child) (m : Except ProtocolFault Json) :
    c.pass m = { c with outbox := c.outbox ++ passing c.setup.accepts m } := by
  cases m with
  | error fault => rfl
  | ok message =>
    cases h : c.setup.accepts message <;> simp [pass, passing, emit, log, h]

/-- Messages are passed on one by one. -/
theorem foldl_pass (ms : List (Except ProtocolFault Json)) (c : Child) :
    ms.foldl pass c = { c with outbox := c.outbox ++ ms.flatMap (passing c.setup.accepts) } := by
  induction ms generalizing c with
  | nil => simp
  | cons m ms ih => rw [List.foldl_cons, ih, pass_eq]; simp

/-! ## Hearing -/

/-- The child runs, and the keeper reads what it writes; so far it wrote
nothing. -/
structure Listening (c : Child) : Prop where
  reading : c.reader = .reading
  unread : c.output = []
  unended : c.outputEnded = false
  quiet : c.errors = []
  running : c.exitCode = none

/-- The child writes one piece of output after another. -/
def hear (chunks : List (List UInt8)) (c : Child) : Option Child :=
  chunks.foldlM (fun c bytes => c.writeOutput bytes) c

/-- What the keeper has done about the output, and where it stands, after it
heard all of `bytes`. -/
structure Heard (c : Child) (bytes : List UInt8) (c' : Child) : Prop where
  setup : c'.setup = c.setup
  outbox : c'.outbox = c.outbox ++ (readAll bytes).1.flatMap (passing c.setup.accepts)
  reader : c'.reader = readerAfter false (readAll bytes).2.1 (readAll bytes).2.2
  unread : (readAll bytes).2.1.isFinal = false → c'.output = (readAll bytes).2.2
  unended : c'.outputEnded = false
  quiet : c'.errors = []
  running : c'.exitCode = none

/-- A child that wrote nothing to its error output leaves nothing to read of
it. -/
theorem drain_of_quiet {c : Child} (h : c.errors = []) :
    ∃ draining, c.drain = { c with draining } := by
  have hl : readLines [] = ([], [], true) := by
    unfold readLines
    simp [splitLine, lineLimit]
  cases c
  dsimp only at h
  subst h
  rename_i _ _ _ errorsEnded _ _ _ _ _ _ draining _ _ _
  cases draining with
  | false => exact ⟨false, rfl⟩
  | true =>
    cases errorsEnded with
    | false => exact ⟨true, by simp [drain, hl]⟩
    | true => exact ⟨false, by simp [drain, hl]⟩

/-- A child that runs is not closed. -/
theorem closeIfExited_of_running {c : Child} (h : c.exitCode = none) : c.closeIfExited = c := by
  unfold closeIfExited
  split
  · rename_i he
    rw [h] at he
    cases he
  · rfl

/-- What the keeper does to the output of a child it reads. -/
theorem readOutput_of_reading {c : Child} (h : c.reader = .reading) :
    c.readOutput =
      { c with
        outbox := c.outbox ++ (readAll c.output).1.flatMap (passing c.setup.accepts)
        output := (readAll c.output).2.2
        reader := readerAfter c.outputEnded (readAll c.output).2.1 (readAll c.output).2.2 } := by
  rw [readOutput, h]
  dsimp only
  rw [foldl_pass]

/-- A keeper that stopped at nothing final reads on. -/
theorem readerAfter_of_not_final {lack : Lack} (h : lack.isFinal = false) (rest : List UInt8) :
    readerAfter false lack rest = .reading := by
  rw [readerAfter, Bool.false_or, ← Lack.isFinal, h]
  rfl

/-- A keeper that cannot read on waits for the child to exit. -/
theorem readerAfter_of_final {lack : Lack} (h : lack.isFinal = true) (rest : List UInt8) :
    readerAfter false lack rest = .waiting none := by
  cases lack <;> first | rfl | cases h

/-- Nothing is read by a keeper that does not read on. -/
theorem readOutput_of_not_reading {c : Child} (h : c.reader ≠ .reading) : c.readOutput = c := by
  unfold readOutput
  split
  · rename_i he
    exact absurd he h
  · rfl

/-- Attending to a quiet child that runs is reading its output. -/
theorem attend_of_quiet {c : Child} (hq : c.errors = []) (hr : c.exitCode = none) :
    ∃ draining, c.attend = { c.readOutput with draining } := by
  have hf : c.readOutput.errors = [] ∧ c.readOutput.exitCode = none := by
    by_cases h : c.reader = .reading
    · rw [readOutput_of_reading h]
      exact ⟨hq, hr⟩
    · rw [readOutput_of_not_reading h]
      exact ⟨hq, hr⟩
  rw [attend, closeIfExited_of_running hf.2]
  exact drain_of_quiet hf.1

/-- A child that was started is listened to. -/
theorem listening_start {setup : Setup} {c : Child} (h : new? setup = some c)
    (hs : setup.startError = none) (call : String) : Listening (c.start call) := by
  unfold new? at h
  split at h
  · cases h
  · cases h
    unfold start
    simp only [Bool.false_eq_true, if_false, log, emit, finish, hs]
    generalize [] ++ _ ++ _ ++ _ = outbox
    let c₁ : Child :=
      { setup, output := [], outputEnded := false, errors := [], errorsEnded := false
        exitCode := none, kills := 0, inputClosing := false, started := true, closed := false
        reader := .reading, draining := true, stops := [], now := 0, outbox }
    obtain ⟨draining, ha⟩ := attend_of_quiet (c := c₁) rfl rfl
    rw [readOutput_of_reading (c := c₁) rfl, show c₁.output = [] from rfl, readAll_nil] at ha
    change Listening c₁.attend
    rw [ha]
    exact ⟨rfl, rfl, rfl, rfl, rfl⟩

/-- One more piece: what is read of it is read as the stream goes on. -/
theorem Heard.write {c c' : Child} {bytes : List UInt8} (h : Heard c bytes c')
    (more : List UInt8) :
    ∃ c'', c'.writeOutput more = some c'' ∧ Heard c (bytes ++ more) c'' := by
  let c₁ : Child := { c' with output := c'.output ++ more }
  obtain ⟨draining, ha⟩ := attend_of_quiet (c := c₁) h.quiet h.running
  refine ⟨c₁.attend, by rw [writeOutput, if_neg (by simp [h.unended])], ?_⟩
  have hs := readAll_append bytes more
  cases hf : (readAll bytes).2.1.isFinal with
  | true =>
    -- reading broke off before, and the piece stays unread
    have hr : c'.reader = .waiting none := h.reader.trans (readerAfter_of_final hf _)
    have hn : c₁.readOutput = c₁ := readOutput_of_not_reading (by rw [show c₁.reader = _ from hr]; nofun)
    rw [hf, if_pos rfl] at hs
    rw [ha, hn]
    refine ⟨h.setup, ?_, ?_, ?_, h.unended, h.quiet, h.running⟩
    · rw [hs]
      exact h.outbox
    · rw [hs]
      exact hr.trans (readerAfter_of_final hf _).symm
    · rw [hs, hf]
      nofun
  | false =>
    have hr : c'.reader = .reading := h.reader.trans (readerAfter_of_not_final hf _)
    have hn := readOutput_of_reading (c := c₁) hr
    have ho : c₁.output = (readAll bytes).2.2 ++ more := congrArg (· ++ more) (h.unread hf)
    rw [hf, if_neg (by simp)] at hs
    rw [ha, hn, ho]
    refine ⟨h.setup, ?_, ?_, ?_, h.unended, h.quiet, h.running⟩
    · simp only [c₁, h.outbox, h.setup, hs, List.flatMap_append, List.append_assoc]
    · simp only [c₁, h.unended, hs]
    · intro _
      simp only [hs]

/-- **The cuts do not matter.** After any pieces the keeper has done what it
does on hearing all of their bytes. -/
theorem heard_hear {c : Child} (h : Listening c) (chunks : List (List UInt8)) :
    ∃ c', hear chunks c = some c' ∧ Heard c chunks.flatten c' := by
  have h₀ : Heard c [] c := by
    refine ⟨rfl, ?_, ?_, ?_, h.unended, h.quiet, h.running⟩
    · simp [readAll_nil]
    · rw [readAll_nil]
      exact h.reading
    · intro _
      rw [readAll_nil]
      exact h.unread
  suffices hg : ∀ (bytes : List UInt8) (c₁ : Child), Heard c bytes c₁ →
      ∃ c', hear chunks c₁ = some c' ∧ Heard c (bytes ++ chunks.flatten) c' from hg [] c h₀
  induction chunks with
  | nil =>
    intro bytes c₁ h₁
    exact ⟨c₁, rfl, by simpa using h₁⟩
  | cons chunk chunks ih =>
    intro bytes c₁ h₁
    obtain ⟨c₂, hw, h₂⟩ := h₁.write chunk
    obtain ⟨c', hh, h'⟩ := ih (bytes ++ chunk) c₂ h₂
    refine ⟨c', ?_, by simpa using h'⟩
    rw [hear, List.foldlM_cons, hw]
    exact hh

/-- When the output ends the keeper has nothing more to pass on. It waits for
the child to exit, and knows whether the output ended within a frame. -/
theorem Heard.endOutput {c c' : Child} {bytes : List UInt8} (h : Heard c bytes c')
    (hf : (readAll bytes).2.1.isFinal = false) :
    c'.endOutput.outbox = c'.outbox ∧
      c'.endOutput.reader = .waiting (causeOf (endOf (readAll bytes).2.1 (readAll bytes).2.2)) := by
  let c₁ : Child := { c' with outputEnded := true }
  obtain ⟨draining, ha⟩ := attend_of_quiet (c := c₁) h.quiet h.running
  have hr : c₁.reader = .reading := h.reader.trans (readerAfter_of_not_final hf _)
  have ho : readAll c₁.output = ([], (readAll bytes).2.1, (readAll bytes).2.2) := by
    rw [show c₁.output = _ from h.unread hf]
    exact readAll_of_error (read_rest bytes)
  rw [show c'.endOutput = c₁.attend from rfl, ha, readOutput_of_reading hr, ho]
  exact ⟨by simp [c₁], rfl⟩

/-! ## Frames -/

/-- **Frames come through one by one.** However the output is cut, the keeper
gets one result for each frame, in order and as its own body says, and sees
the end of the output after the last. Objects that were framed are the
objects it gets. Only a body that is refused ends this: what comes before it
is read, and nothing else. -/
theorem frames_come_through (fs : List Framed) (chunks : List (List UInt8))
    (hr : ∀ f ∈ fs, ¬ Refused f.body) :
    (chunks.flatten = fs.flatMap Framed.bytes →
      ∃ ms, List.Forall₂ (fun f m => Reads f.body m) fs ms ∧
        readAll chunks.flatten = (ms, .header, []) ∧
        ∀ c, Listening c → ∃ c', hear chunks c = some c' ∧
          c'.outbox = c.outbox ++ ms.flatMap (passing c.setup.accepts) ∧ c'.reader = .reading ∧
          c'.endOutput.outbox = c'.outbox ∧ c'.endOutput.reader = .waiting none) ∧
    (∀ (texts : List (List Char)) (objects : List Fields),
      List.Forall₂ (fun text fields => Json.read text = .ok (.obj fields)) texts objects →
      (∀ text ∈ texts, (Numeral.digits (Utf8.encode text).length).length ≤ Numeral.maxDigits) →
      chunks.flatten = texts.flatMap frame →
      readAll chunks.flatten = (objects.map fun fields => .ok (.obj fields), .header, [])) ∧
    (∀ (bad : Framed) (rest : List UInt8), Refused bad.body →
      ∃ ms, List.Forall₂ (fun f m => Reads f.body m) fs ms ∧
        readAll (fs.flatMap Framed.bytes ++ (bad.bytes ++ rest)) =
          (ms, .refused, bad.bytes ++ rest)) := by
  refine ⟨?_, ?_, ?_⟩
  · intro hc
    obtain ⟨ms, hm, he⟩ := readAll_framed hr []
    rw [List.append_nil, readAll_nil, List.append_nil, ← hc] at he
    refine ⟨ms, hm, he, fun c h => ?_⟩
    obtain ⟨c', hh, hd⟩ := heard_hear h chunks
    have hf : (readAll chunks.flatten).2.1.isFinal = false := by rw [he]; rfl
    obtain ⟨ho, hw⟩ := hd.endOutput hf
    refine ⟨c', hh, ?_, hd.reader.trans (readerAfter_of_not_final hf _), ho, ?_⟩
    · rw [hd.outbox, he]
    · rw [hw, he]
      rfl
  · intro texts objects h hd hc
    rw [hc]
    exact readAll_frame h hd
  · intro bad rest hb
    obtain ⟨ms, hm, he⟩ := readAll_framed hr (bad.bytes ++ rest)
    refine ⟨ms, hm, ?_⟩
    rw [he, readAll_refused hb, List.append_nil]

/-- The shortest object. -/
def braces : List Char := "\x7b\x7d".toList

/-- The shortest array. -/
def brackets : List Char := "[]".toList

/-- Two bytes can be announced. -/
theorem length_digits_two : (Numeral.digits 2).length ≤ Numeral.maxDigits := by
  rw [Numeral.digits]
  decide

/-- The frames of an object and of an array. -/
def bracesAndBrackets : List Framed :=
  [.ofText braces (by decide) length_digits_two, .ofText brackets (by decide) length_digits_two]

/-- The bytes of an object with an integer of 4301 digits can be announced. -/
theorem length_digits_longInteger :
    (Numeral.digits (Utf8.encode (longInteger 4301)).length).length ≤ Numeral.maxDigits := by
  rw [length_encode_longInteger]
  simp [Numeral.digits, Numeral.maxDigits]

/-- The frame of an object with an integer of 4301 digits. -/
def tooLong : Framed :=
  .ofText (longInteger 4301) (by rw [length_encode_longInteger]; decide) length_digits_longInteger

/-- Both come through when the output is cut within the first header block. -/
theorem frames_come_through_cut :
    (∀ f ∈ bracesAndBrackets, ¬ Refused f.body) ∧
    (∃ ms, List.Forall₂ (fun f m => Reads f.body m) bracesAndBrackets ms ∧
      readAll [(frame braces).take 18, (frame braces).drop 18 ++ frame brackets].flatten =
        (ms, .header, [])) ∧
    readAll [(frame braces).take 18, (frame braces).drop 18].flatten =
      ([.ok (.obj [])], .header, []) ∧
    (∃ ms, List.Forall₂ (fun f m => Reads f.body m) bracesAndBrackets ms ∧
      readAll (bracesAndBrackets.flatMap Framed.bytes ++ (tooLong.bytes ++ frame braces)) =
        (ms, .refused, tooLong.bytes ++ frame braces)) := by
  have hr : ∀ f ∈ bracesAndBrackets, ¬ Refused f.body := by
    intro f hf h
    have he := message_of_refused h
    simp only [bracesAndBrackets, List.mem_cons, List.not_mem_nil, or_false] at hf
    rcases hf with rfl | rfl <;> cases he
  have hc : [(frame braces).take 18, (frame braces).drop 18 ++ frame brackets].flatten =
      bracesAndBrackets.flatMap Framed.bytes := by
    simp only [List.flatten_cons, List.flatten_nil, List.append_nil, ← List.append_assoc,
      List.take_append_drop]
    change _ = frame braces ++ (frame brackets ++ [])
    rw [List.append_nil]
  obtain ⟨ms, hm, he, -⟩ := (frames_come_through bracesAndBrackets _ hr).1 hc
  refine ⟨hr, ⟨ms, hm, he⟩, ?_, ?_⟩
  · exact (frames_come_through bracesAndBrackets _ hr).2.1 [braces] [[]] (.cons rfl .nil)
      (fun text ht => List.mem_singleton.1 ht ▸ length_digits_two) (by simp)
  · exact (frames_come_through bracesAndBrackets [] hr).2.2 tooLong (frame braces)
      (refused_longInteger (by decide))

/-- **An integer that is too long ends the hearing.** Of an object with an
integer of 4301 digits and a frame after it nothing is read, though each of
the two is a frame, and the second is read where it stands alone. -/
theorem frames_lost_after_longInteger :
    ∃ fs : List Framed,
      fs.map Framed.body = [Utf8.encode (longInteger 4301), Utf8.encode braces] ∧
      readAll (fs.flatMap Framed.bytes) = ([], .refused, fs.flatMap Framed.bytes) ∧
      readAll (frame braces) = ([.ok (.obj [])], .header, []) := by
  refine ⟨[tooLong, .ofText braces (by decide) length_digits_two], rfl, ?_, ?_⟩
  · exact readAll_refused (f := tooLong) (refused_longInteger (by decide)) _
  · have hread : List.Forall₂ (fun text fields => Json.read text = .ok (.obj fields))
        [braces] [[]] := .cons rfl .nil
    simpa using readAll_frame hread fun text ht => List.mem_singleton.1 ht ▸ length_digits_two

end Child

end LanguageRelay
