import LanguageRelay.Proofs.Child.Hearing
import LanguageRelay.Proofs.Child.Records
import LanguageRelay.Proofs.Service.Line
/-!
# The life of a child

What the record of a child says, whatever happened to it and in whichever
order (`LifeCycle`): the frames were taken off its output in order, each
message reached each handler once, the closing was told once, and nothing
was handed on or written after it.

Three things can close the connection: the end of the output, with the exit
of the child, and the return of a call that stopped it, which may have killed
it. They overlap, and the flag `closed` decides who is first. The invariant
that carries this is that the reader has `ended` exactly when the connection
is closed (`Lawful.ended`): so a reader that can still take a frame has
nothing behind it yet.
-/

namespace LanguageRelay

namespace Child

open Service Frame

/-! ## Reading on -/

/-- What the child wrote. -/
def written (record : List Deed) : List UInt8 := record.flatMap Deed.bytes

/-- What was read of it. -/
def taken (record : List Deed) : List (Except ProtocolFault Json) :=
  record.filterMap Deed.reading?

@[simp] theorem written_append (as bs : List Deed) : written (as ++ bs) = written as ++ written bs :=
  List.flatMap_append

@[simp] theorem taken_append (as bs : List Deed) : taken (as ++ bs) = taken as ++ taken bs :=
  List.filterMap_append

/-- No call that stops the child has returned. -/
def Unstopped (record : List Deed) : Prop := ∀ call, .stopped call ∉ record

/-- Where the reader stands in what the child wrote. -/
structure Following (k : Keeping) : Prop where
  /-- As long as it reads, it has what it took and will have what can be taken of
  the bytes left, whatever follows them. -/
  reading : k.child.reader = .reading → ∀ more, readAll (written k.record ++ more)
    = (taken k.record ++ (readAll (k.child.output ++ more)).1, (readAll (k.child.output ++ more)).2)
  /-- When it reads no more, unless a call that stopped the child has seen to
  that, it took all there was and will be. -/
  beyond : k.child.reader ≠ .reading → Unstopped k.record →
    (k.child.outputEnded = true ∧ (readAll (written k.record)).1 = taken k.record)
      ∨ ∀ more, (readAll (written k.record ++ more)).1 = taken k.record
  inOrder : ∀ more, taken k.record <+: (readAll (written k.record ++ more)).1

variable {k k' : Keeping} {deeds : List Deed}

/-- Deeds that have nothing to do with the output leave the reader where it
is. -/
theorem Following.of_eq (h : Following k) (hwritten : written k'.record = written k.record)
    (htaken : taken k'.record = taken k.record) (houtput : k'.child.output = k.child.output)
    (hended : k.child.outputEnded = true → k'.child.outputEnded = true)
    (hreading : k'.child.reader = .reading → k.child.reader = .reading)
    (hover : k'.child.reader ≠ .reading → Unstopped k'.record →
      k.child.reader ≠ .reading ∧ Unstopped k.record) : Following k' := by
  refine ⟨fun hr more => ?_, fun hr hs => ?_, fun more => ?_⟩
  · rw [hwritten, htaken, houtput, h.reading (hreading hr)]
  · obtain ⟨hr, hs⟩ := hover hr hs
    rw [hwritten, htaken]
    exact (h.beyond hr hs).imp_left fun ⟨he, hall⟩ => ⟨hended he, hall⟩
  · rw [hwritten, htaken]
    exact h.inOrder more

/-- The child writes on. -/
theorem Following.write (h : Following k) (bytes : List UInt8)
    (hended : k.child.outputEnded = false) :
    Following
      ({ k with child := { k.child with output := k.child.output ++ bytes } }.note [.came bytes]) := by
  have hwritten : written (k.record ++ [.came bytes]) = written k.record ++ bytes := by
    simp [written]
  have htaken : taken (k.record ++ [.came bytes]) = taken k.record := by
    simp [taken, List.filterMap_cons]
  refine ⟨fun hr more => ?_, fun hr hs => .inr fun more => ?_, fun more => ?_⟩
  · simp only [Keeping.note, hwritten, htaken, List.append_assoc]
    exact h.reading hr (bytes ++ more)
  · have hall : ∀ more, (readAll (written k.record ++ more)).1 = taken k.record := by
      refine (h.beyond hr fun call hmem => hs call (List.mem_append_left _ hmem)).resolve_left ?_
      rintro ⟨he, -⟩
      rw [hended] at he
      cases he
    simpa only [Keeping.note, hwritten, htaken, List.append_assoc] using hall (bytes ++ more)
  · simpa only [Keeping.note, hwritten, htaken, List.append_assoc] using h.inOrder (bytes ++ more)

/-- The reader takes a frame off: it is the next of those the child wrote. -/
theorem Following.take (h : Following k) (hr : k.child.reader = .reading)
    {reading : Except ProtocolFault Json} {rest : List UInt8}
    (hread : read k.child.output = .ok (reading, rest)) {deeds : List Deed}
    (hwritten : written deeds = []) (htaken : taken deeds = [reading]) :
    Following ({ k with child := { k.child with output := rest } }.note deeds) := by
  have hall : ∀ more, readAll (written k.record ++ more)
      = ((taken k.record ++ [reading]) ++ (readAll (rest ++ more)).1, (readAll (rest ++ more)).2) := by
    intro more
    rw [h.reading hr more, readAll_of_ok (read_append more hread)]
    simp
  refine ⟨fun _ more => ?_, fun hne => absurd hr hne, fun more => ?_⟩
  · simpa [Keeping.note, hwritten, htaken] using hall more
  · simp only [Keeping.note, written_append, taken_append, hwritten, htaken, List.append_nil, hall]
    exact List.prefix_append _ _

/-- The reader finds that there is no further frame. -/
theorem Following.lack (h : Following k) (hr : k.child.reader = .reading) {lack : Lack}
    (hread : read k.child.output = .error lack) :
    Following { k with child := { k.child with
      reader := readerAfter k.child.outputEnded lack k.child.output } } := by
  have hall := h.reading hr []
  rw [List.append_nil, List.append_nil, readAll_of_error hread] at hall
  refine ⟨fun _ => h.reading hr, fun hne _ => ?_, h.inOrder⟩
  cases hended : k.child.outputEnded with
  | true => exact .inl ⟨rfl, by simp [hall]⟩
  | false =>
    have hfinal : lack.isFinal = true := by
      by_contra hf
      refine hne ?_
      simp only [hended]
      exact readerAfter_of_not_final (by simpa using hf) _
    refine .inr fun more => ?_
    rw [h.reading hr more, readAll_of_error (read_append_broken more hread hfinal)]
    simp

/-! ## One act -/

/-- What holds of a child while it is kept. -/
structure Lawful (k : Keeping) : Prop where
  recorded : Recorded k.record k.hearers k.listeners k.child.closed
  following : Following k
  /-- The reader has done with the output when the connection is closed, and
  not before. -/
  ended : k.child.reader = .ended ↔ k.child.closed = true
  started : k.child.started = true

/-- Right after the start nothing has happened. -/
theorem lawful_begun (c : Child) (hc : c.closed = false) (ho : c.output = []) :
    Lawful (Keeping.begun c) where
  recorded := by constructor <;> simp [Keeping.begun, past, hc]
  following := by
    refine ⟨fun _ more => ?_, fun h => absurd rfl h, fun more => List.nil_prefix⟩
    simp [Keeping.begun, ho, written, taken]
  ended := by simp [Keeping.begun, hc]
  started := rfl

/-- The closing tells nothing of the output. -/
@[simp] theorem written_closing (listeners : Nat) (closed : Bool) (cause : Option Closure) :
    written (Keeping.closing listeners closed cause) = [] := by
  cases closed <;> simp [Keeping.closing, written, List.flatMap_map]

@[simp] theorem taken_closing (listeners : Nat) (closed : Bool) (cause : Option Closure) :
    taken (Keeping.closing listeners closed cause) = [] := by
  cases closed <;>
    simp [Keeping.closing, taken, List.filterMap_cons, List.filterMap_map, Function.comp_def]

/-- Deeds that tell nothing of the output are added. -/
theorem Following.note (h : Following k) (hwritten : written deeds = []) (htaken : taken deeds = []) :
    Following (k.note deeds) :=
  h.of_eq (by simp [Keeping.note, hwritten]) (by simp [Keeping.note, htaken]) rfl id id
    fun hr hs => ⟨hr, fun call hmem => hs call (List.mem_append_left _ hmem)⟩

/-- One turn of the reader keeps the child lawful. -/
theorem Lawful.turn (h : Lawful k) (fails : Nat → Bool) : Lawful (k.turn fails) := by
  unfold Keeping.turn
  split
  next hr =>
    have hopen : k.child.closed = false := by
      by_contra hc
      have := h.ended.mpr (by simpa using hc)
      rw [hr] at this
      cases this
    split
    next reading rest hread =>
      have hrecorded := h.recorded
      rw [hopen] at hrecorded
      refine ⟨?_, h.following.take hr hread ?_ ?_, h.ended, h.started⟩
      · simp only [Keeping.note, hopen]
        exact hrecorded.append (follows_handing fails reading)
      · cases reading <;> simp [Keeping.handing, written, List.flatMap_map]
      · cases reading <;>
          simp [Keeping.handing, taken, List.filterMap_map, Function.comp_def]
    next lack hread =>
      refine ⟨h.recorded, h.following.lack hr hread, ?_, h.started⟩
      simp only [hopen, readerAfter]
      split <;> simp
  next cause hr =>
    split
    next code hcode =>
      have hfollowing : Following
          { k with child := { k.child with reader := .ended, closed := true } } :=
        h.following.of_eq rfl rfl rfl id (by simp)
          fun _ hs => ⟨by simp [hr], hs⟩
      exact ⟨h.recorded.append (follows_closing _ _),
        hfollowing.note (written_closing _ _ _) (taken_closing _ _ _), by simp [Keeping.shut, Keeping.note],
        h.started⟩
    next => exact h
  next => exact h

/-- So does the return of a call that stops it. -/
theorem Lawful.release (h : Lawful k) (call : String) : Lawful (k.release call) := by
  refine ⟨?_, ?_, by simp [Keeping.release, Keeping.shut, Keeping.note], h.started⟩
  · exact (h.recorded.append (follows_closing _ none)).append (follows_stopped call)
  · refine h.following.of_eq ?_ ?_ rfl id (fun hr => nomatch hr) fun _ hs => ?_
    · simp [Keeping.release, Keeping.shut, Keeping.note, show written [.stopped call] = [] from rfl]
    · simp [Keeping.release, Keeping.shut, Keeping.note, show taken [.stopped call] = [] from rfl]
    · exact absurd (List.mem_append_right _ List.mem_cons_self) (hs call)

/-- A command is refused for a cause there is. -/
theorem answers_of_send {c : Child} {message : Json} {cause : Failure}
    (h : (c.send message).2 = some cause) : Answers message (.error cause) := by
  unfold send at h
  split at h
  · exact Option.some.inj h ▸ .closed _
  · split at h
    · exact Option.some.inj h ▸ .closed _
    · by_cases hwritable : message.isWritable
      · simp [line?, hwritable] at h
      · simp only [line?, hwritable] at h
        exact Option.some.inj h ▸ .unwritable hwritable

/-- A command is written on an open connection, if it can be. -/
theorem open_of_send {c : Child} {message : Json} (h : (c.send message).2 = none) :
    c.closed = false ∧ message.isWritable := by
  unfold send at h
  split at h
  · cases h
  next hn =>
    simp only [Bool.or_eq_true, not_or, Bool.not_eq_true] at hn
    refine ⟨hn.1, ?_⟩
    by_contra hnot
    split at h <;> simp [line?, hnot] at h

/-- It matters to a child's being lawful only where the reading of its output stands and
whether it is connected. -/
theorem Lawful.child (h : Lawful k) {c : Child} {killers : List String}
    (houtput : c.output = k.child.output)
    (hended : k.child.outputEnded = true → c.outputEnded = true)
    (hreader : c.reader = k.child.reader) (hclosed : c.closed = k.child.closed)
    (hstarted : c.started = k.child.started) : Lawful { k with child := c, killers } where
  recorded := hclosed ▸ h.recorded
  following := h.following.of_eq rfl rfl houtput hended (hreader ▸ id)
    fun hr hs => ⟨hreader ▸ hr, hs⟩
  ended := by rw [hreader, hclosed]; exact h.ended
  started := hstarted.trans h.started

/-- Deeds that tell nothing of the output, and that nobody is told, are added. -/
theorem Lawful.note (h : Lawful k) (haside : ∀ d ∈ deeds, d.isAside = true)
    (hwritten : written deeds = []) (htaken : taken deeds = []) : Lawful (k.note deeds) :=
  ⟨h.recorded.asides haside, h.following.note hwritten htaken, h.ended, h.started⟩

/-- A command is written on an open connection, or refused. -/
theorem Lawful.send (h : Lawful k) (message : Json) : Lawful (k.perform (.send message)) := by
  simp only [Keeping.perform]
  split
  next hnone =>
    obtain ⟨hopen, hwritable⟩ := open_of_send hnone
    have hrecorded := h.recorded
    rw [hopen] at hrecorded
    refine ⟨?_, h.following.note rfl rfl, h.ended, h.started⟩
    simp only [Keeping.note, hopen]
    exact hrecorded.append (follows_wrote hwritable)
  next cause hsome =>
    exact ⟨h.recorded.append (follows_refused (answers_of_send hsome)), h.following.note rfl rfl,
      h.ended, h.started⟩

/-- What the child wrote on its errors is noted down. -/
theorem Lawful.drain (h : Lawful k) : Lawful (k.perform .drain) := by
  have hdrained : Lawful { k with child := (Keeping.drained k.child).1 } := by
    unfold Keeping.drained
    split <;> exact h.child rfl id rfl rfl rfl
  refine hdrained.note (by simp) ?_ ?_
  · simp [written, List.flatMap_map]
  · simp [taken, List.filterMap_map, Function.comp_def]

/-- **Whatever happens, the child stays lawful.** -/
theorem Lawful.perform (h : Lawful k) (act : Act) : Lawful (k.perform act) := by
  cases act with
  | join =>
    have hnoted : Following (k.note [.joined]) := h.following.note rfl rfl
    exact ⟨h.recorded.join, hnoted.of_eq rfl rfl rfl id id fun hr hs => ⟨hr, hs⟩, h.ended, h.started⟩
  | enlist =>
    have hnoted : Following (k.note [.enlisted]) := h.following.note rfl rfl
    exact ⟨h.recorded.enlist, hnoted.of_eq rfl rfl rfl id id fun hr hs => ⟨hr, hs⟩, h.ended,
      h.started⟩
  | write bytes =>
    simp only [Keeping.perform]
    split
    · exact h
    next hended =>
      exact ⟨h.recorded.asides (by simp), h.following.write bytes (by simpa using hended), h.ended,
        h.started⟩
  | endOutput => exact h.child rfl (fun _ => rfl) rfl rfl rfl
  | writeErrors bytes =>
    simp only [Keeping.perform]
    split
    · exact h
    · exact h.child rfl id rfl rfl rfl
  | exit code =>
    simp only [Keeping.perform]
    split
    · exact h
    · exact h.child rfl id rfl rfl rfl
  | start call => exact h.note (by simp) rfl rfl
  | send message => exact h.send message
  | turn fails => exact h.turn fails
  | drain => exact h.drain
  | notice i =>
    simp only [Keeping.perform]
    split
    next s _ _ _ =>
      have hdropped : Lawful
          { k with child := { k.child with stops := k.child.stops.eraseIdx i } } :=
        h.child rfl id rfl rfl rfl
      exact hdropped.release s.call
    · exact h
  | tire i =>
    simp only [Keeping.perform]
    split
    · split
      · exact h.child rfl id rfl rfl rfl
      · exact h
    · exact h
  | bury i =>
    simp only [Keeping.perform]
    split
    next call _ _ _ =>
      have hdropped : Lawful { k with killers := k.killers.eraseIdx i } :=
        h.child rfl id rfl rfl rfl
      exact hdropped.release call
    · exact h
  | _ => exact h.child rfl id rfl rfl rfl

theorem Lawful.run (h : Lawful k) (acts : List Act) : Lawful (k.run acts) := by
  induction acts generalizing k with
  | nil => exact h
  | cons act acts ih => exact ih (h.perform act)

/-! ## Coming to rest -/

/-- The reader of the output has nothing to do. -/
def AtRest (k : Keeping) : Prop := ∀ fails, k.turn fails = k

/-- How many turns the reader can take at most. -/
def turnsLeft (k : Keeping) : Nat :=
  match k.child.reader with
  | .reading => k.child.output.length + 2
  | .waiting _ => 1
  | .ended => 0

/-- **The reader is at rest, or it gets on.** -/
theorem atRest_or_turnsLeft (k : Keeping) :
    AtRest k ∨ ∀ fails, turnsLeft (k.turn fails) < turnsLeft k := by
  cases hr : k.child.reader with
  | reading =>
    cases hread : read k.child.output with
    | ok result =>
      obtain ⟨reading, rest⟩ := result
      have := length_read hread
      refine .inr fun fails => ?_
      simp only [Keeping.turn, hr, hread, turnsLeft, Keeping.note]
      omega
    | error lack =>
      cases hafter : readerAfter k.child.outputEnded lack k.child.output with
      | reading =>
        refine .inl fun fails => ?_
        simp only [Keeping.turn, hr, hread, hafter]
        rw [← hr]
      | waiting cause => exact .inr fun fails => by simp [Keeping.turn, hr, hread, hafter, turnsLeft]
      | ended => exact .inr fun fails => by simp [Keeping.turn, hr, hread, hafter, turnsLeft]
  | waiting cause =>
    cases hcode : k.child.exitCode with
    | some code =>
      exact .inr fun fails => by
        simp [Keeping.turn, hr, hcode, turnsLeft, Keeping.shut, Keeping.note]
    | none => exact .inl fun fails => by simp [Keeping.turn, hr, hcode]
  | ended => exact .inl fun fails => by simp [Keeping.turn, hr]

/-- Turns enough bring the reader to rest. -/
theorem atRest_of_turns {turns : List (Nat → Bool)} (h : turnsLeft k ≤ turns.length) :
    AtRest (k.run (turns.map .turn)) := by
  induction turns generalizing k with
  | nil =>
    refine (atRest_or_turnsLeft k).resolve_right fun hless => ?_
    have := hless fun _ => false
    simp only [List.length_nil] at h
    omega
  | cons fails turns ih =>
    simp only [List.length_cons] at h
    rcases atRest_or_turnsLeft k with hrest | hless
    · have hstill : ∀ turns : List (Nat → Bool), k.run (turns.map .turn) = k := by
        intro turns
        induction turns with
        | nil => rfl
        | cons fails turns ih => exact (congrArg (Keeping.run _) (hrest fails)).trans ih
      rwa [hstill]
    · have := hless fails
      exact ih (k := k.turn fails) (by omega)

/-- Where the output has ended and the child has exited, a reader at rest has
ended too. -/
theorem AtRest.reader_eq (h : AtRest k) (hended : k.child.outputEnded = true)
    (hexit : k.child.exitCode.isSome = true) : k.child.reader = .ended := by
  have hturn := congrArg (fun k => k.child.reader) (h fun _ => false)
  cases hr : k.child.reader with
  | reading =>
    simp only [Keeping.turn, hr] at hturn
    split at hturn
    next reading rest hread =>
      have := length_read hread
      have hsame := congrArg (fun k => k.child.output) (h fun _ => false)
      simp only [Keeping.turn, hr, hread, Keeping.note] at hsame
      rw [hsame] at this
      omega
    next => simp [readerAfter, hended] at hturn
  | waiting cause =>
    obtain ⟨code, hcode⟩ := Option.isSome_iff_exists.mp hexit
    simp [Keeping.turn, hr, hcode, Keeping.shut, Keeping.note] at hturn
  | ended => rfl

/-- A reader that comes to rest undisturbed has taken all there is. -/
theorem Following.complete (h : Following k) (hs : Unstopped k.record) (hrest : AtRest k) :
    taken k.record = (readAll (written k.record)).1 := by
  by_cases hr : k.child.reader = .reading
  · have hturn := congrArg (fun k => k.child.output) (hrest fun _ => false)
    have hall := h.reading hr []
    rw [List.append_nil, List.append_nil] at hall
    cases hread : read k.child.output with
    | ok result =>
      have := length_read hread
      simp only [Keeping.turn, hr, hread, Keeping.note] at hturn
      rw [hturn] at this
      omega
    | error lack => rw [hall, readAll_of_error hread, List.append_nil]
  · rcases h.beyond hr hs with ⟨-, hall⟩ | hall
    · exact hall.symm
    · simpa using (hall []).symm

/-! ## The life of a child -/

/-- The causes of the closing. -/
def causes (record : List Deed) : List (Option Closure) := record.filterMap Deed.cause?

theorem length_causes (record : List Deed) :
    (causes record).length = record.countP Deed.isShut := by
  induction record with
  | nil => rfl
  | cons d record ih =>
    rw [List.countP_cons, ← ih]
    cases d <;> simp [causes, List.filterMap_cons]

/-- What the record of a child says. -/
structure LifeCycle (k : Keeping) : Prop where
  /-- What was taken off the output are its frames, from the first on, in order. -/
  inOrder : taken k.record <+: (readAll (written k.record)).1
  /-- They are all taken, if no call that stops the child returns before. -/
  complete : Unstopped k.record → AtRest k → taken k.record = (readAll (written k.record)).1
  /-- A handler was given the messages taken after it was registered, each once
  and in order, whichever handler failed on which. -/
  heard : ∀ i, k.record.filterMap (Deed.handedTo? i)
    = (past Deed.isJoined i k.record).filterMap Deed.message?
  /-- The connection closes once at most. -/
  once : (causes k.record).length ≤ 1
  /-- A handler is told of it only if it was registered before, and once. -/
  told : ∀ i, k.record.filterMap (Deed.toldTo? i)
    = causes (past Deed.isEnlisted i k.record)
  notified : ∀ before cause after, k.record = before ++ .shut cause :: after →
    ∀ i < before.countP Deed.isEnlisted, k.record.filterMap (Deed.toldTo? i) = [cause]
  /-- It is closed when a call that stops the child has returned. -/
  stopped : ∀ call, .stopped call ∈ k.record → (causes k.record).length = 1
  /-- It is closed when the output has ended and the child has exited, once the
  reader has come to rest. -/
  exited : k.child.outputEnded = true → k.child.exitCode.isSome = true → AtRest k →
    (causes k.record).length = 1
  /-- The reader comes to rest. -/
  rests : ∀ turns : List (Nat → Bool), k.child.output.length + 2 ≤ turns.length →
    AtRest (k.run (turns.map .turn))
  /-- After the closing nothing is taken, handed on or written. -/
  silent : ∀ before cause after, k.record = before ++ .shut cause :: after →
    ∀ d ∈ after, d.isActive = false
  /-- To each command one line is written, its own, or none, and then it is said that
  the connection is closed, or that the command cannot be written; in the order of
  the commands. -/
  sends : List.Forall₂ Answers (k.record.filterMap Deed.asked?) (k.record.filterMap Deed.answer?)
  lines : ∀ line, .wrote line ∈ k.record → ∃ text, line = text ++ ['\n'] ∧ '\n' ∉ text
  /-- A command is sent if the connection is open, the input is not being closed and
  the command can be written. -/
  sent : ∀ message, (k.perform (.send message)).record = k.record ++
    if k.child.closed then [.asked message, .refused (.closed .notRunning)]
    else if k.child.inputClosing then [.asked message, .refused (.closed .inputClosed)]
    else if message.isWritable then [.asked message, .wrote (encodeLine message)]
    else [.asked message, .refused (.value .badValue)]

theorem exists_of_forall₂ {α β : Type} {r : α → β → Prop} {as : List α} {bs : List β} {b : β}
    (h : List.Forall₂ r as bs) (hb : b ∈ bs) : ∃ a ∈ as, r a b := by
  induction h with
  | nil => cases hb
  | cons hr _ ih =>
    rcases List.mem_cons.mp hb with rfl | hb
    · exact ⟨_, List.mem_cons_self, hr⟩
    · obtain ⟨a, ha, hr⟩ := ih hb
      exact ⟨a, List.mem_cons_of_mem _ ha, hr⟩

/-- A connection that closes only once has not closed before or after. -/
theorem causes_eq_nil {before after : List Deed} {cause : Option Closure}
    (h : (causes (before ++ .shut cause :: after)).length ≤ 1) :
    causes before = [] ∧ causes after = [] := by
  have hcons : causes (.shut cause :: after) = cause :: causes after := rfl
  have happend : causes (before ++ .shut cause :: after)
      = causes before ++ causes (.shut cause :: after) := List.filterMap_append
  rw [happend, hcons, List.length_append, List.length_cons] at h
  exact ⟨List.length_eq_zero_iff.mp (by omega), List.length_eq_zero_iff.mp (by omega)⟩

/-- **A lawful child has the life it should have.** -/
theorem Lawful.lifeCycle (h : Lawful k) : LifeCycle k := by
  have hcount : (causes k.record).length = k.child.closed.toNat :=
    (length_causes _).trans h.recorded.once
  have honce : (causes k.record).length ≤ 1 := by
    rw [hcount]
    cases k.child.closed <;> simp
  exact {
    inOrder := by simpa using h.following.inOrder []
    complete := h.following.complete
    heard := h.recorded.heard
    once := honce
    told := h.recorded.told
    notified := by
      intro before cause after hcut i hi
      rw [hcut] at honce
      obtain ⟨hbefore, hafter⟩ := causes_eq_nil honce
      have hpast : (past Deed.isEnlisted i before).filterMap Deed.cause? = [] :=
        List.filterMap_eq_nil_iff.mpr fun d hd =>
          List.filterMap_eq_nil_iff.mp hbefore d (mem_of_mem_past hd)
      rw [h.recorded.told, hcut, past_append, if_pos hi, List.filterMap_append, hpast]
      exact congrArg (cause :: ·) hafter
    stopped := fun call hmem => by rw [hcount, h.recorded.stopped call hmem]; rfl
    exited := by
      intro hended hexit hrest
      rw [hcount, h.ended.mp (hrest.reader_eq hended hexit)]
      rfl
    rests := by
      intro turns hlen
      refine atRest_of_turns (Nat.le_trans ?_ hlen)
      unfold turnsLeft
      split
      · exact Nat.le_refl _
      · omega
      · omega
    silent := by
      intro before cause after hcut
      have hsilent := h.recorded.silent
      rw [hcut] at honce
      have hnone : before.countP Deed.isShut = 0 := by
        rw [← length_causes, (causes_eq_nil honce).1]
        rfl
      rw [hcut, past_append, hnone, if_neg (by omega)] at hsilent
      exact hsilent
    sends := h.recorded.sends
    lines := by
      intro line hmem
      have hanswer : .ok line ∈ k.record.filterMap Deed.answer? :=
        List.mem_filterMap.mpr ⟨_, hmem, rfl⟩
      obtain ⟨message, -, hline⟩ := exists_of_forall₂ h.recorded.sends hanswer
      cases hline
      exact encodeLine_eq message
    sent := by
      intro message
      have hstarted := h.started
      cases hclosed : k.child.closed <;> cases hinput : k.child.inputClosing <;>
        cases hwritable : message.isWritable <;>
          simp [Keeping.perform, Child.send, line?, Keeping.note, hclosed, hinput, hwritable,
            hstarted] }

end Child

end LanguageRelay
