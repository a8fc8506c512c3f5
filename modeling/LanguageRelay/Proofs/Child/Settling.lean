import LanguageRelay.Proofs.Child.LifeCycle
/-!
# A child that settles

`Child` does at once whatever is left to do when something happens to it:
it reads all frames there are, closes the connection if it is time, and lets
the calls return that waited. What it does can be seen as
a row of acts (`Mimics`), which differs with what is left to do.

A child that was attended to has `Settled`: once it has exited the keeper has
done with it, and the calls that stop it return without further ado.
-/

namespace LanguageRelay

namespace Child

open Service Frame

/-! ## What is seen of a record -/

/-- What a deed does to the world outside. -/
def Deed.effects : Deed → List Effect
  | took (.error fault) => [.logged .error ("dropping unreadable tsserver output: " ++ fault.message)]
  | handed _ message failed =>
    .passed message failed ::
      if failed then [.logged .error "tsserver message handler failed"] else []
  | shut cause => [.logged .warning ("tsserver connection closed: " ++ causeText cause)]
  | told _ cause => [.closed cause]
  | wrote line => [.wrote line]
  | started call | stopped call => [.finished call (.ok ())]
  | noted text => [.logged .debug text]
  | _ => []

/-- What is seen of a child that is kept, after `before`. -/
def Keeping.shown (before : List Effect) (k : Keeping) : Child :=
  { k.child with outbox := before ++ k.record.flatMap Deed.effects }

/-- There is one handler of each kind, and no call that killed the child still
waits. -/
structure Alone (k : Keeping) : Prop where
  hearers : k.hearers = 1
  listeners : k.listeners = 1
  killers : k.killers = []

theorem alone_iff {k : Keeping} :
    Alone k ↔ k.hearers = 1 ∧ k.listeners = 1 ∧ k.killers = [] :=
  ⟨fun h => ⟨h.hearers, h.listeners, h.killers⟩, fun ⟨hearers, listeners, killers⟩ => ⟨hearers, listeners, killers⟩⟩

/-- The operation is seen to be a row of acts. -/
def MimicsAt (before : List Effect) (k : Keeping) (op : Child → Child) : Prop :=
  ∃ acts, (k.run acts).shown before = op (k.shown before) ∧ Alone (k.run acts)

/-- It always is. -/
def Mimics (op : Child → Child) : Prop := ∀ before k, Alone k → MimicsAt before k op

variable {k : Keeping} {before : List Effect}

theorem Keeping.run_append (as bs : List Act) (k : Keeping) : k.run (as ++ bs) = (k.run as).run bs :=
  List.foldl_append

/-- One operation after another is one row of acts after another. -/
theorem MimicsAt.comp {f g : Child → Child} (hf : MimicsAt before k f)
    (hg : ∀ acts, (k.run acts).shown before = f (k.shown before) → Alone (k.run acts) →
      MimicsAt before (k.run acts) g) : MimicsAt before k fun c => g (f c) := by
  obtain ⟨first, hshown, ha⟩ := hf
  obtain ⟨second, hshown', ha'⟩ := hg first hshown ha
  refine ⟨first ++ second, ?_⟩
  rw [Keeping.run_append, hshown', hshown]
  exact ⟨rfl, ha'⟩

theorem Mimics.comp {f g : Child → Child} (hf : Mimics f) (hg : Mimics g) :
    Mimics fun c => g (f c) :=
  fun before k ha => (hf before k ha).comp fun _ _ ha' => hg before _ ha'

/-! ## Reading all there is -/

/-- The handler fails on the message of a frame, if it does not get through
it. -/
def failing (accepts : Json → Bool) : Except ProtocolFault Json → Nat → Bool
  | .ok message, _ => !accepts message
  | .error _, _ => false

/-- What is seen of a frame being handed on. -/
theorem effects_handing (accepts : Json → Bool) (reading : Except ProtocolFault Json) :
    (Keeping.handing 1 (failing accepts reading) reading).flatMap Deed.effects
      = passing accepts reading := by
  cases reading with
  | error fault => rfl
  | ok message =>
    cases h : accepts message <;> simp [Keeping.handing, failing, Deed.effects, passing, h]

/-- Turn by turn all frames are taken that there are. -/
theorem exists_turns (hr : k.child.reader = .reading) (ha : Alone k) :
    ∃ acts, k.run acts =
      { k with
        child := { k.child with output := (readAll k.child.output).2.2 }
        record := k.record ++ (readAll k.child.output).1.flatMap fun reading =>
          Keeping.handing 1 (failing k.child.setup.accepts reading) reading } := by
  generalize hbytes : k.child.output = bytes
  induction bytes using readAll.induct generalizing k with
  | case1 bytes lack hread =>
    refine ⟨[], ?_⟩
    rw [readAll_of_error hread, ← hbytes]
    simp [Keeping.run]
  | case2 bytes reading rest hread _ ms last _ ih =>
    let fails := failing k.child.setup.accepts reading
    let k' : Keeping := { k with child := { k.child with output := rest } }.note
      (Keeping.handing 1 fails reading)
    have hturn : k.turn fails = k' := by
      simp only [Keeping.turn, hr, hbytes, hread, ha.hearers, k']
    obtain ⟨acts, hacts⟩ := ih (k := k') hr ⟨ha.hearers, ha.listeners, ha.killers⟩ rfl
    refine ⟨.turn fails :: acts, ?_⟩
    rw [readAll_of_ok hread]
    change (k.turn fails).run acts = _
    rw [hturn, hacts]
    simp [k', Keeping.note, fails]

/-- **Reading the output is a row of turns.** -/
theorem mimics_readOutput : Mimics readOutput := by
  intro before k ha
  by_cases hr : k.child.reader = .reading
  · obtain ⟨acts, hacts⟩ := exists_turns hr ha
    refine ⟨acts ++ [.turn fun _ => false], ?_⟩
    rw [Keeping.run_append, hacts]
    have hpassing : ∀ ms : List (Except ProtocolFault Json),
        (ms.flatMap fun reading =>
            Keeping.handing 1 (failing k.child.setup.accepts reading) reading).flatMap Deed.effects
          = ms.flatMap (passing k.child.setup.accepts) := by
      intro ms
      rw [List.flatMap_assoc]
      simp only [effects_handing]
    simp only [Keeping.run, List.foldl_cons, List.foldl_nil, Keeping.perform, Keeping.turn, hr,
      read_rest]
    refine ⟨?_, ha.hearers, ha.listeners, ha.killers⟩
    rw [readOutput_of_reading (c := k.shown before) hr]
    simp [Keeping.shown, hpassing]
  · exact ⟨[], (readOutput_of_not_reading (c := k.shown before) hr).symm, ha⟩

/-- What is seen of the closing. -/
theorem effects_closing (closed : Bool) (cause : Option Closure) :
    (Keeping.closing 1 closed cause).flatMap Deed.effects
      = if closed then [] else
        [.logged .warning ("tsserver connection closed: " ++ causeText cause), .closed cause] := by
  cases closed <;> simp [Keeping.closing, Deed.effects]

/-- What is seen of a child when the connection closes. -/
theorem shown_shut (ha : Alone k) (cause : Option Closure) :
    (k.shut cause).shown before = (k.shown before).close cause := by
  cases hc : k.child.closed with
  | true =>
    simp only [Keeping.shut, Keeping.note, Keeping.shown, close, hc, Keeping.closing, if_true,
      List.append_nil]
  | false =>
    simp [Keeping.shut, Keeping.note, Keeping.shown, close, hc, ha.listeners, effects_closing, log,
      emit]

/-- The connection closes in one turn. -/
theorem mimics_closeIfExited : Mimics closeIfExited := by
  intro before k ha
  cases hr : k.child.reader with
  | waiting cause =>
    cases hcode : k.child.exitCode with
    | some code =>
      let k' : Keeping := { k with child := { k.child with reader := .ended } }
      have ha' : Alone k' := ⟨ha.hearers, ha.listeners, ha.killers⟩
      have hturn : k.run [.turn fun _ => false] = k'.shut (some (cause.getD (.exited code))) := by
        simp only [Keeping.run, List.foldl_cons, List.foldl_nil, Keeping.perform, Keeping.turn, hr,
          hcode, k']
      have hclose : closeIfExited (k.shown before)
          = (k'.shown before).close (some (cause.getD (.exited code))) := by
        simp [closeIfExited, Keeping.shown, hr, hcode, k']
      refine ⟨[.turn fun _ => false], ?_⟩
      rw [hturn, hclose]
      exact ⟨shown_shut ha' _, ha.hearers, ha.listeners, ha.killers⟩
    | none => exact ⟨[], by simp [closeIfExited, Keeping.run, Keeping.shown, hr, hcode], ha⟩
  | reading => exact ⟨[], by simp [closeIfExited, Keeping.run, Keeping.shown, hr], ha⟩
  | ended => exact ⟨[], by simp [closeIfExited, Keeping.run, Keeping.shown, hr], ha⟩

/-- Lines are logged one after another. -/
theorem foldl_log (texts : List (List UInt8)) (c : Child) :
    texts.foldl (fun c line => c.log .debug (errorLine line)) c
      = { c with outbox := c.outbox ++ texts.map fun line => .logged .debug (errorLine line) } := by
  induction texts generalizing c with
  | nil => simp
  | cons line texts ih => rw [List.foldl_cons, ih]; simp [log, emit]

/-- What `drain` leaves, and what it logs. -/
theorem drain_eq (c : Child) :
    c.drain = { (Keeping.drained c).1 with
      outbox := c.outbox ++ (Keeping.drained c).2.map (.logged .debug) } := by
  cases hd : c.draining with
  | false =>
    simp only [drain, Keeping.drained, hd, Bool.false_eq_true, if_false, List.map_nil,
      List.append_nil]
    rw [← hd]
  | true =>
    obtain ⟨⟨lines, rest, goesOn⟩, hlines⟩ : ∃ r, readLines c.errors = r := ⟨_, rfl⟩
    simp only [drain, Keeping.drained, hd, if_true, hlines, foldl_log]
    cases goesOn with
    | false => simp [Function.comp_def]
    | true =>
      cases hended : c.errorsEnded with
      | false => simp [Function.comp_def]
      | true => cases hempty : rest.isEmpty <;> simp [log, emit, Function.comp_def]

/-- Reading the error output is one act. -/
theorem mimics_drain : Mimics drain := by
  intro before k ha
  have heffects : ∀ texts : List String,
      (texts.map Deed.noted).flatMap Deed.effects = texts.map (.logged .debug) := by
    intro texts
    induction texts with
    | nil => rfl
    | cons text texts ih => simpa [Deed.effects] using ih
  have hdrained : Keeping.drained (k.shown before)
      = ({ (Keeping.drained k.child).1 with
            outbox := before ++ k.record.flatMap Deed.effects }, (Keeping.drained k.child).2) := by
    unfold Keeping.drained Keeping.shown
    cases k.child.draining <;> simp
  refine ⟨[.drain], ?_, ha.hearers, ha.listeners, ha.killers⟩
  rw [drain_eq, hdrained]
  simp [Keeping.run, Keeping.perform, Keeping.note, Keeping.shown, heffects]

theorem mimics_attend : Mimics attend :=
  (mimics_readOutput.comp mimics_closeIfExited).comp mimics_drain

/-! ## What the child does by itself -/

/-- The child exits by acts of its own. -/
theorem exists_terminate (code : Int) (k : Keeping) :
    ∃ acts, k.run acts = { k with child := k.child.terminate code } := by
  cases hcode : k.child.exitCode with
  | some other => exact ⟨[], by simp [terminate, hcode, Keeping.run]⟩
  | none =>
    exact ⟨[.exit code, .endOutput, .endErrors],
      by simp [terminate, hcode, Keeping.run, Keeping.perform]⟩

theorem mimics_terminate (code : Int) : Mimics (terminate code) := by
  intro before k ha
  obtain ⟨acts, hacts⟩ := exists_terminate code k
  refine ⟨acts, ?_⟩
  rw [hacts]
  refine ⟨?_, ha.hearers, ha.listeners, ha.killers⟩
  cases hcode : k.child.exitCode <;> simp [Keeping.shown, terminate, hcode]

theorem mimics_markInputClosing : Mimics markInputClosing := fun _ _ ha =>
  ⟨[.closeInput], rfl, ha.hearers, ha.listeners, ha.killers⟩

/-- The child writes to its output, if it still can. -/
theorem mimics_writeOutput (bytes : List UInt8) :
    Mimics fun c => (c.writeOutput bytes).getD c := by
  intro before k ha
  cases hended : k.child.outputEnded with
  | true => exact ⟨[], by simp [writeOutput, Keeping.run, Keeping.shown, hended], ha⟩
  | false =>
    have hwrite : MimicsAt before k fun c => { c with output := c.output ++ bytes } :=
      ⟨[.write bytes], by
        simp [Keeping.run, Keeping.perform, hended, Keeping.note, Keeping.shown, Deed.effects],
        by simpa [Keeping.run, Keeping.perform, hended, Keeping.note] using
          ⟨ha.hearers, ha.listeners, ha.killers⟩⟩
    have hattend := hwrite.comp fun _ _ ha' => mimics_attend before _ ha'
    simpa [MimicsAt, writeOutput, Keeping.shown, hended] using hattend

/-- It writes to its error output, if it still can. -/
theorem mimics_writeErrors (bytes : List UInt8) :
    Mimics fun c => (c.writeErrors bytes).getD c := by
  intro before k ha
  cases hended : k.child.errorsEnded with
  | true => exact ⟨[], by simp [writeErrors, Keeping.run, Keeping.shown, hended], ha⟩
  | false =>
    have hwrite : MimicsAt before k fun c => { c with errors := c.errors ++ bytes } :=
      ⟨[.writeErrors bytes], by
        simp [Keeping.run, Keeping.perform, hended, Keeping.shown],
        by simpa [Keeping.run, Keeping.perform, hended] using
          ⟨ha.hearers, ha.listeners, ha.killers⟩⟩
    have hattend := hwrite.comp fun _ _ ha' => mimics_attend before _ ha'
    simpa [MimicsAt, writeErrors, Keeping.shown, hended] using hattend

theorem mimics_endOutput : Mimics endOutput :=
  Mimics.comp (f := fun c => { c with outputEnded := true })
    (fun _ _ ha => ⟨[.endOutput], rfl, ha.hearers, ha.listeners, ha.killers⟩) mimics_attend

/-! ## What reading leaves alone -/

/-- What there is to read may differ, and how far the keeper has come. -/
structure SameCourse (c c' : Child) : Prop where
  exitCode : c'.exitCode = c.exitCode
  outputEnded : c'.outputEnded = c.outputEnded
  errorsEnded : c'.errorsEnded = c.errorsEnded
  inputClosing : c'.inputClosing = c.inputClosing
  stops : c'.stops = c.stops
  now : c'.now = c.now

theorem SameCourse.trans {a b c : Child} (h : SameCourse a b) (h' : SameCourse b c) :
    SameCourse a c :=
  ⟨h'.exitCode.trans h.exitCode, h'.outputEnded.trans h.outputEnded,
    h'.errorsEnded.trans h.errorsEnded, h'.inputClosing.trans h.inputClosing,
    h'.stops.trans h.stops, h'.now.trans h.now⟩

theorem sameCourse_readOutput (c : Child) : SameCourse c c.readOutput := by
  by_cases hr : c.reader = .reading
  · rw [readOutput_of_reading hr]
    exact ⟨rfl, rfl, rfl, rfl, rfl, rfl⟩
  · rw [readOutput_of_not_reading hr]
    exact ⟨rfl, rfl, rfl, rfl, rfl, rfl⟩

theorem sameCourse_close (cause : Option Closure) (c : Child) : SameCourse c (c.close cause) := by
  unfold close
  split <;> exact ⟨rfl, rfl, rfl, rfl, rfl, rfl⟩

theorem sameCourse_closeIfExited (c : Child) : SameCourse c c.closeIfExited := by
  unfold closeIfExited
  split
  · have hended : SameCourse c { c with reader := .ended } := ⟨rfl, rfl, rfl, rfl, rfl, rfl⟩
    exact hended.trans (sameCourse_close _ _)
  · exact ⟨rfl, rfl, rfl, rfl, rfl, rfl⟩

theorem sameCourse_drain (c : Child) : SameCourse c c.drain := by
  rw [drain_eq, Keeping.drained]
  split <;> exact ⟨rfl, rfl, rfl, rfl, rfl, rfl⟩

theorem sameCourse_attend (c : Child) : SameCourse c c.attend :=
  ((sameCourse_readOutput c).trans (sameCourse_closeIfExited _)).trans (sameCourse_drain _)

/-! ## A child that settled -/

/-- Once the child has exited the keeper has done with it. -/
structure Over (c : Child) : Prop where
  ended : c.reader = .ended
  closed : c.closed = true
  undrained : c.draining = false

/-- Nothing is left to be done about the exit. -/
structure Done (c : Child) : Prop where
  finished : c.exitCode.isSome = true → Over c
  /-- What exited writes no more. -/
  cut : c.exitCode.isSome = true → c.outputEnded = true ∧ c.errorsEnded = true

/-- Nothing is left to be done. -/
structure Settled (c : Child) : Prop extends Done c where
  /-- No call waits for a child that exited. -/
  waitless : c.exitCode.isSome = true → c.stops = []
  /-- No call has lost patience. -/
  patient : ∀ s ∈ c.stops, c.now ≤ s.due

/-- What else there is of a child is no matter. -/
theorem Settled.keep {c c' : Child} (h : Settled c) (hexit : c'.exitCode = c.exitCode)
    (hreader : c'.reader = c.reader) (hclosed : c'.closed = c.closed)
    (hdraining : c'.draining = c.draining) (houtput : c'.outputEnded = c.outputEnded)
    (herrors : c'.errorsEnded = c.errorsEnded) (hstops : c'.stops = c.stops)
    (hpatient : ∀ s ∈ c.stops, c'.now ≤ s.due) : Settled c' := by
  refine ⟨⟨fun he => ?_, fun he => ?_⟩, fun he => ?_, ?_⟩
  · rw [hexit] at he
    exact ⟨hreader.trans (h.finished he).ended, hclosed.trans (h.finished he).closed,
      hdraining.trans (h.finished he).undrained⟩
  · rw [hexit] at he
    rw [houtput, herrors]
    exact h.cut he
  · rw [hexit] at he
    exact hstops.trans (h.waitless he)
  · rw [hstops]
    exact hpatient

/-- **Attending to a child that exited is the end of it.** -/
theorem over_attend {c : Child} (hclosed : c.reader = .ended ↔ c.closed = true)
    (hcut : c.outputEnded = true ∧ c.errorsEnded = true) (hexit : c.exitCode.isSome = true) :
    Over c.attend := by
  obtain ⟨code, hcode⟩ := Option.isSome_iff_exists.mp hexit
  have hended : ∀ c' : Child, c'.errorsEnded = true → c'.drain.draining = false := by
    intro c' he
    rw [drain_eq, Keeping.drained]
    split
    · simp [he]
    next hn => simpa using hn
  have hkeeps : ∀ c' : Child, c'.drain.reader = c'.reader ∧ c'.drain.closed = c'.closed := by
    intro c'
    rw [drain_eq, Keeping.drained]
    split <;> exact ⟨rfl, rfl⟩
  have hread : c.readOutput.reader = .ended ∧ c.readOutput.closed = true
      ∨ ∃ cause, c.readOutput.reader = .waiting cause := by
    cases hr : c.reader with
    | reading =>
      refine .inr ⟨causeOf (endOf (readAll c.output).2.1 (readAll c.output).2.2), ?_⟩
      simp [readOutput_of_reading hr, readerAfter, hcut.1]
    | waiting cause =>
      rw [readOutput_of_not_reading (by simp [hr])]
      exact .inr ⟨cause, hr⟩
    | ended =>
      rw [readOutput_of_not_reading (by simp [hr])]
      exact .inl ⟨hr, hclosed.mp hr⟩
  have hover : c.readOutput.closeIfExited.reader = .ended
      ∧ c.readOutput.closeIfExited.closed = true := by
    have hcode' := (sameCourse_readOutput c).exitCode.trans hcode
    rcases hread with ⟨hr, hc⟩ | ⟨cause, hr⟩
    · rw [show c.readOutput.closeIfExited = c.readOutput by simp [closeIfExited, hr]]
      exact ⟨hr, hc⟩
    · simp only [closeIfExited, hr, hcode', close]
      split
      next hc => exact ⟨rfl, hc⟩
      next => exact ⟨rfl, rfl⟩
  have herrors : c.readOutput.closeIfExited.errorsEnded = true :=
    ((sameCourse_readOutput c).trans (sameCourse_closeIfExited _)).errorsEnded.trans hcut.2
  exact ⟨(hkeeps _).1.trans hover.1, (hkeeps _).2.trans hover.2, hended _ herrors⟩

/-- So is attending to any child. -/
theorem done_attend {c : Child} (hclosed : c.reader = .ended ↔ c.closed = true)
    (hcut : c.exitCode.isSome = true → c.outputEnded = true ∧ c.errorsEnded = true) :
    Done c.attend := by
  have hsame := sameCourse_attend c
  refine ⟨fun h => ?_, fun h => ?_⟩
  · rw [hsame.exitCode] at h
    exact over_attend hclosed (hcut h) h
  · rw [hsame.exitCode] at h
    rw [hsame.outputEnded, hsame.errorsEnded]
    exact hcut h

/-- A child that was attended to has settled, if no call waits in vain. -/
theorem settled_attend {c : Child} (hclosed : c.reader = .ended ↔ c.closed = true)
    (hcut : c.exitCode.isSome = true → c.outputEnded = true ∧ c.errorsEnded = true)
    (hwaitless : c.exitCode.isSome = true → c.stops = [])
    (hpatient : ∀ s ∈ c.stops, c.now ≤ s.due) : Settled c.attend := by
  have hsame := sameCourse_attend c
  refine ⟨done_attend hclosed hcut, fun h => ?_, ?_⟩
  · rw [hsame.exitCode] at h
    rw [hsame.stops, hwaitless h]
  · rw [hsame.stops, hsame.now]
    exact hpatient

/-- Calls return when the exit is done with. -/
theorem settled_finishStops {c : Child} (h : Done c) (hpatient : ∀ s ∈ c.stops, c.now ≤ s.due) :
    Settled c.finishStops := by
  unfold finishStops
  split
  next hexit =>
    have hfold : ∀ (stops : List Stop) (c : Child), Over c → c.stops = [] →
        (c.outputEnded = true ∧ c.errorsEnded = true) →
        Settled (stops.foldl (fun c s => c.finish s.call (.ok ())) c) := by
      intro stops
      induction stops with
      | nil => exact fun c ho hs hc => ⟨⟨fun _ => ho, fun _ => hc⟩, fun _ => hs, by simp [hs]⟩
      | cons s stops ih => exact fun c ho hs hc => ih _ ⟨ho.ended, ho.closed, ho.undrained⟩ hs hc
    exact hfold _ _ ⟨(h.finished hexit).ended, (h.finished hexit).closed, (h.finished hexit).undrained⟩ rfl
      (h.cut hexit)
  next hexit => exact ⟨h, fun h' => absurd h' hexit, hpatient⟩

/-- No call waits on once the child has exited. -/
theorem stops_finishStops {c : Child} (h : c.exitCode.isSome = true) : c.finishStops.stops = [] := by
  have hfold : ∀ (stops : List Stop) (c : Child),
      (stops.foldl (fun c s => c.finish s.call (.ok ())) c).stops = c.stops := by
    intro stops
    induction stops with
    | nil => exact fun _ => rfl
    | cons s stops ih => exact fun c => ih _
  rw [finishStops, if_pos h, hfold]

/-- A connection that was closed is closed, and the keeper where it was. -/
theorem close_fields (cause : Option Closure) (c : Child) :
    (c.close cause).reader = c.reader ∧ (c.close cause).closed = true
      ∧ (c.close cause).draining = c.draining := by
  unfold close
  split
  next h => exact ⟨rfl, h, rfl⟩
  next => exact ⟨rfl, rfl, rfl⟩

/-- A child that was made to exit has exited, and writes no more. -/
theorem terminate_fields (code : Int) (c : Child) :
    (c.terminate code).stops = c.stops ∧ (c.terminate code).now = c.now
      ∧ (c.terminate code).reader = c.reader ∧ (c.terminate code).closed = c.closed
      ∧ ((c.exitCode.isSome = true → c.outputEnded = true ∧ c.errorsEnded = true) →
        (c.terminate code).outputEnded = true ∧ (c.terminate code).errorsEnded = true) := by
  unfold terminate
  split
  next h => exact ⟨rfl, rfl, rfl, rfl, fun hcut => hcut h⟩
  next => exact ⟨rfl, rfl, rfl, rfl, fun _ => ⟨rfl, rfl⟩⟩

/-- Nothing is left to be done about a child that was killed. -/
theorem over_kill (call : String) (c : Child) : Over (c.kill call) := by
  obtain ⟨hreader, hclosed, hdraining⟩ := close_fields none
    { ({ c with kills := c.kills + 1 } : Child).terminate (-9) with
      reader := .ended, draining := false }
  exact ⟨hreader, hclosed, hdraining⟩

/-- Killing the child leaves alone the calls that wait. -/
theorem kill_fields (call : String) (c : Child) :
    (c.kill call).stops = c.stops ∧ (c.kill call).now = c.now
      ∧ ((c.exitCode.isSome = true → c.outputEnded = true ∧ c.errorsEnded = true) →
        (c.kill call).outputEnded = true ∧ (c.kill call).errorsEnded = true) := by
  have hclose := sameCourse_close none
    { ({ c with kills := c.kills + 1 } : Child).terminate (-9) with
      reader := .ended, draining := false }
  obtain ⟨hstops, hnow, -, -, hcut⟩ := terminate_fields (-9) { c with kills := c.kills + 1 }
  refine ⟨hclose.stops.trans hstops, hclose.now.trans hnow, fun h => ?_⟩
  exact ⟨hclose.outputEnded.trans (hcut h).1, hclose.errorsEnded.trans (hcut h).2⟩

theorem done_kill (call : String) {c : Child} (h : Done c) : Done (c.kill call) :=
  ⟨fun _ => over_kill call c, fun _ => (kill_fields call c).2.2 h.cut⟩

/-- The calls that wait are no matter for killing the child. -/
theorem kill_withStops (call : String) (c : Child) (stops : List Stop) :
    { c.kill call with stops } = kill call { c with stops } := by
  cases hcode : c.exitCode <;> cases hclosed : c.closed <;>
    simp [kill, terminate, close, finish, emit, log, hcode, hclosed]

end Child

end LanguageRelay
