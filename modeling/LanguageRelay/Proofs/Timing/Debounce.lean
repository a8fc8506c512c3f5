import LanguageRelay.Proofs.Timing.Occasions
/-!
# Debouncing

The occasions of a run, each with the time on the clock, are its *history*. A
schedule stands until another takes its place, the document is closed, the
connection ends, or its timer goes off. `debounce` says of every run that each
timer goes off once, at the time of the schedule it was set by and the delay,
if that schedule still stands then; and that no timer goes off otherwise.
-/

namespace LanguageRelay

/-- The occasion puts an end to the schedules of a document before it. -/
def Occasion.Supersedes (uri : String) : Occasion → Prop
  | .scheduled u | .withdrawn u => u = uri
  | .disconnected => True
  | .fired _ => False

/-- The occasions of a run, and when they were. -/
abbrev History := List (Int × Occasion)

namespace History

/-- When the timer of a document went off. -/
def firings (uri : String) (h : History) : List Int :=
  h.filterMap fun x => if x.2 = .fired uri then some x.1 else none

/-- When the schedule was made that stands for a document, if one does. -/
def standing (uri : String) (h : History) : Option Int :=
  h.foldl (fun s x => x.2.since uri x.1 s) none

/-- A timer goes off only for a schedule that stands, and when the delay is
over. -/
def Lawful (delay : Int) (h : History) : Prop :=
  ∀ uri before t after, h = before ++ (t, .fired uri) :: after →
    standing uri before = some (t - delay)

variable {uri : String} {delay t : Int} {h before after : History} {o : Occasion}

theorem standing_snoc (uri : String) (h : History) (x : Int × Occasion) :
    standing uri (h ++ [x]) = x.2.since uri x.1 (standing uri h) := by
  simp [standing]

theorem firings_append (uri : String) (h h' : History) :
    firings uri (h ++ h') = firings uri h ++ firings uri h' :=
  List.filterMap_append ..

theorem Lawful.of_append {h h' : History} (hlawful : Lawful delay (h ++ h')) : Lawful delay h := by
  rintro uri before t after rfl
  exact hlawful uri before t (after ++ h') (by simp)

theorem Lawful.snoc (hlawful : Lawful delay h) {x : Int × Occasion}
    (hx : ∀ uri, x.2 = .fired uri → standing uri h = some (x.1 - delay)) :
    Lawful delay (h ++ [x]) := by
  intro uri before t after heq
  rcases List.eq_nil_or_concat after with rfl | ⟨after, y, rfl⟩
  · obtain ⟨rfl, hlast⟩ := List.append_inj' heq rfl
    cases List.singleton_inj.mp hlast
    exact hx uri rfl
  · have hsnoc : h ++ [x] = before ++ (t, .fired uri) :: after ++ [y] := by simpa using heq
    exact hlawful uri before t after (List.append_inj' hsnoc rfl).1

/-- **A schedule that nothing supersedes stands until its timer goes off**,
which it does once. -/
theorem firings_of_scheduled (hlawful : Lawful delay (before ++ (t, .scheduled uri) :: after))
    (hlast : ∀ x ∈ after, ¬ x.2.Supersedes uri) :
    firings uri after = [] ∧
        standing uri (before ++ (t, .scheduled uri) :: after) = some t ∨
      firings uri after = [t + delay] ∧
        standing uri (before ++ (t, .scheduled uri) :: after) = none := by
  induction after using List.reverseRecOn with
  | nil =>
    refine .inl ⟨rfl, ?_⟩
    rw [standing_snoc]
    exact if_pos rfl
  | append_singleton after x ih =>
    have hsnoc : before ++ (t, .scheduled uri) :: (after ++ [x]) =
        before ++ (t, .scheduled uri) :: after ++ [x] := by simp
    rw [hsnoc] at hlawful ⊢
    have hprevious := ih hlawful.of_append fun y hy => hlast y (List.mem_append_left _ hy)
    have hx := hlast x (List.mem_append_right _ (List.mem_singleton_self x))
    rw [standing_snoc, firings_append]
    obtain ⟨time, o⟩ := x
    cases o with
    | scheduled u | withdrawn u =>
      have hu : ¬ u = uri := hx
      simpa [firings, Occasion.since, hu] using hprevious
    | disconnected => exact absurd trivial hx
    | fired u =>
      by_cases hu : u = uri
      · subst hu
        -- it goes off only while the schedule stands, and so for the first time
        have hdue := hlawful u _ time [] rfl
        rcases hprevious with ⟨hnone, hstanding⟩ | ⟨-, hstanding⟩
        · rw [hstanding] at hdue
          have htime : time = t + delay := by
            have := Option.some.inj hdue
            omega
          exact .inr ⟨by simp [firings, htime] at hnone ⊢; exact hnone, by simp [Occasion.since]⟩
        · rw [hstanding] at hdue
          cases hdue
      · simpa [firings, Occasion.since, hu] using hprevious

/-- **A schedule that stands was made, and nothing has happened to its document
since.** -/
theorem exists_of_standing (hstanding : standing uri h = some t) :
    ∃ before after, h = before ++ (t, .scheduled uri) :: after ∧
      ∀ x ∈ after, ¬ x.2.Supersedes uri ∧ x.2 ≠ .fired uri := by
  induction h using List.reverseRecOn with
  | nil => cases hstanding
  | append_singleton h x ih =>
    rw [standing_snoc] at hstanding
    obtain ⟨time, o⟩ := x
    have hkeep : standing uri h = some t → ¬ o.Supersedes uri → o ≠ .fired uri →
        ∃ before after, h ++ [(time, o)] = before ++ (t, .scheduled uri) :: after ∧
          ∀ x ∈ after, ¬ x.2.Supersedes uri ∧ x.2 ≠ .fired uri := by
      intro hbefore ho hfired
      obtain ⟨before, after, rfl, hafter⟩ := ih hbefore
      refine ⟨before, after ++ [(time, o)], by simp, fun x hx => ?_⟩
      rcases List.mem_append.mp hx with hx | hx
      · exact hafter x hx
      · rw [List.mem_singleton.mp hx]
        exact ⟨ho, hfired⟩
    cases o with
    | scheduled u =>
      by_cases hu : u = uri
      · simp only [Occasion.since, if_pos hu, Option.some.injEq] at hstanding
        exact ⟨h, [], by rw [hu, hstanding], by simp⟩
      · simp only [Occasion.since, if_neg hu] at hstanding
        exact hkeep hstanding hu (by simp)
    | withdrawn u =>
      by_cases hu : u = uri
      · simp [Occasion.since, hu] at hstanding
      · simp only [Occasion.since, if_neg hu] at hstanding
        exact hkeep hstanding hu (by simp)
    | disconnected => cases hstanding
    | fired u =>
      by_cases hu : u = uri
      · simp [Occasion.since, hu] at hstanding
      · simp only [Occasion.since, if_neg hu] at hstanding
        exact hkeep hstanding id (by simpa using hu)

end History

namespace Engine

open History

variable {m : Moment} {d : Deed} {deeds : List Deed} {uri : String} {delay : Int}

/-- The history of a run. -/
def history : List Deed → Moment → History
  | [], _ => []
  | d :: rest, m =>
    ((d.occasion? m).map (m.engine.agenda.now, ·)).toList ++ history rest (d.perform m)

theorem history_append (deeds more : List Deed) (m : Moment) :
    history (deeds ++ more) m = history deeds m ++ history more (work deeds m) := by
  induction deeds generalizing m with
  | nil => rfl
  | cons d rest ih => simp [history, ih]

/-- An occasion of a history was a deed of the run. -/
theorem exists_of_history {before after : History} {t : Int} {o : Occasion}
    (h : history deeds m = before ++ (t, o) :: after) :
    ∃ ds d ds', deeds = ds ++ d :: ds' ∧ history ds m = before ∧
      (work ds m).engine.agenda.now = t ∧ d.occasion? (work ds m) = some o ∧
      history ds' (d.perform (work ds m)) = after := by
  induction deeds generalizing m before with
  | nil => simp [history] at h
  | cons d rest ih =>
    cases hoccasion : d.occasion? m with
    | none =>
      simp only [history, hoccasion, Option.map_none, Option.toList_none, List.nil_append] at h
      obtain ⟨ds, d', ds', rfl, hbefore, hnow, ho, hafter⟩ := ih h
      exact ⟨d :: ds, d', ds', rfl, by simpa [history, hoccasion] using hbefore, hnow, ho, hafter⟩
    | some o' =>
      simp only [history, hoccasion, Option.map_some, Option.toList_some, List.singleton_append] at h
      cases before with
      | nil =>
        cases h
        exact ⟨[], d, rest, rfl, rfl, rfl, hoccasion, rfl⟩
      | cons x before =>
        obtain ⟨hx, hrest⟩ := List.cons.inj h
        obtain ⟨ds, d', ds', rfl, hbefore, hnow, ho, hafter⟩ := ih hrest
        exact ⟨d :: ds, d', ds', rfl, by simp [history, hoccasion, hbefore, hx], hnow, ho, hafter⟩

/-! ## Timers along a run -/

/-- **What is so of a moment and the history up to it.** -/
structure Keeps (delay : Int) (h : History) (m : Moment) : Prop where
  orderly : m.Orderly
  sound : m.timetable.Sound
  held : m.timetable.relay.delay = delay
  awaits : ∀ uri, m.timetable.Awaits uri (standing uri h)
  lawful : Lawful delay h
  past : ∀ x ∈ h, x.1 ≤ m.engine.agenda.now

/-- **Every deed keeps timers to their time.** -/
theorem Keeps.perform {h : History} (hkeeps : Keeps delay h m) (hdelay : 0 ≤ delay)
    (htimely : d.Timely m) :
    Keeps delay (h ++ ((d.occasion? m).map (m.engine.agenda.now, ·)).toList) (d.perform m) := by
  have hstep := step_deed hkeeps.orderly htimely
  have hnow : m.engine.agenda.now ≤ (d.perform m).engine.agenda.now := Timetable.now_step hstep
  refine ⟨orderly_perform (t := .any) hkeeps.orderly (meet_any [d] m).1, hkeeps.sound.step hstep,
    (Timetable.delay_step hstep).trans hkeeps.held, fun uri => ?_, ?_, fun x hx => ?_⟩
  · have hawaits := (hkeeps.awaits uri).step hstep hkeeps.sound (hkeeps.held ▸ hdelay)
    cases ho : d.occasion? m with
    | none => simpa [ho] using hawaits
    | some o =>
      rw [ho] at hawaits
      simp only [Option.map_some, Option.toList_some, standing_snoc]
      exact hawaits
  · cases ho : d.occasion? m with
    | none => simpa using hkeeps.lawful
    | some o =>
      refine hkeeps.lawful.snoc fun uri hfired => ?_
      obtain rfl : o = .fired uri := hfired
      rw [ho] at hstep
      have hdue := Timetable.due_of_fired hstep hkeeps.sound (hkeeps.awaits uri)
      rw [hkeeps.held] at hdue
      exact hdue
  · rcases List.mem_append.mp hx with hx | hx
    · exact Int.le_trans (hkeeps.past x hx) hnow
    · obtain ⟨o, -, rfl⟩ := Option.map_eq_some_iff.mp (Option.mem_toList.mp hx)
      exact hnow

theorem keeps_new (setup : Setup) : Keeps setup.delay.nanos [] (.new setup) where
  orderly := orderly_new setup
  sound := ⟨List.nodup_nil, List.nodup_nil, by simp [Timetable.alarms, Moment.timetable, Moment.new,
    withRelay, Engine.new, timetable, Agenda.alarms, Agenda.empty], by simp [Moment.timetable,
    Moment.new, withRelay, Engine.new, timetable, Agenda.alarms, Agenda.empty],
    by simp [Moment.timetable, Moment.new, withRelay, Engine.new, timetable, Relay.timing, relay,
      Relay.new]⟩
  held := rfl
  awaits _ := rfl
  lawful := by simp [Lawful]
  past := by simp

/-- **So does every run.** -/
theorem keeps_work (setup : Setup) (hdelay : 0 ≤ setup.delay.nanos)
    (hpunctual : Punctual deeds (.new setup)) :
    Keeps setup.delay.nanos (history deeds (.new setup)) (work deeds (.new setup)) := by
  induction deeds using List.reverseRecOn with
  | nil => exact keeps_new setup
  | append_singleton deeds d ih =>
    obtain ⟨hbefore, htimely, -⟩ := punctual_append.mp hpunctual
    rw [history_append, work_append]
    simpa [history] using (ih hbefore).perform hdelay htimely

/-! ## The timers that are live -/

/-- The document timers that are live: those that wait for their time, and
those in line that have not been taken back. -/
def Moment.live (m : Moment) : List Alarm :=
  (m.engine.agenda.timers.map Timer.job).filterMap Job.alarm? ++
    (m.jobs.filterMap Job.alarm?).filter (m.engine.relay 0).scheduled.contains

theorem live_eq (m : Moment) : m.live = m.timetable.live := by
  have htimers : (m.engine.agenda.timers.map Timer.job).filterMap Job.alarm? =
      m.timetable.agenda.timers.map Timer.job := by
    simp only [Moment.timetable, timetable, Agenda.alarms, List.filterMap_map, List.map_filterMap]
    refine List.filterMap_congr fun t _ => ?_
    simp [Function.comp_def]
  have hline : m.jobs.filterMap Job.alarm? = m.timetable.agenda.ready :=
    List.filterMap_append
  rw [Moment.live, htimers, hline]
  rfl

/-! ## When timers go off -/

/-- Where nothing can run no timer is due. -/
theorem Keeps.lt_of_idle {h : History} (hkeeps : Keeps delay h m) {t : Int}
    (hstanding : standing uri h = some t) (hidle : m.Idle) :
    m.engine.agenda.now < t + delay := by
  have hawaits := hkeeps.awaits uri
  rw [hstanding] at hawaits
  obtain ⟨hline, hwaits⟩ := hidle.alarms
  obtain ⟨timer, -, ⟨hmem, -⟩ | ⟨hmem, -⟩⟩ := hawaits
  · exact hkeeps.held ▸ hwaits _ hmem
  · rw [hline] at hmem
    cases hmem

theorem Keeps.le_of_standing {h : History} (hkeeps : Keeps delay h m) {t : Int}
    (hstanding : standing uri h = some t) : m.engine.agenda.now ≤ t + delay := by
  have hawaits := hkeeps.awaits uri
  rw [hstanding] at hawaits
  obtain ⟨timer, -, ⟨-, hle⟩ | ⟨-, hnow⟩⟩ := hawaits
  · exact hkeeps.held ▸ hle
  · exact hkeeps.held ▸ Int.le_of_eq hnow

/-- **Timers are debounced**, in a run with this history that has come to this
moment. -/
structure Debounced (delay : Int) (h : History) (m : Moment) : Prop where
  /-- Every timer that is live is the one recorded for its document. -/
  live : m.live.Perm (m.engine.relay 0).scheduled
  /-- No document has two. -/
  single : (Table.keys (m.engine.relay 0).scheduled).Nodup
  /-- A schedule that nothing supersedes has its timer go off once, when the
  delay is over. Until then the timer is still to come. -/
  fires : ∀ uri before t after, h = before ++ (t, .scheduled uri) :: after →
    (∀ x ∈ after, ¬ x.2.Supersedes uri) →
      firings uri after = [t + delay] ∨
      firings uri after = [] ∧ m.engine.agenda.now ≤ t + delay ∧
        (m.Idle → m.engine.agenda.now < t + delay)
  /-- One that is superseded has had its timer go off before that, or its timer
  has not come due and never goes off. -/
  superseded : ∀ uri before t between t' o after,
    h = before ++ (t, .scheduled uri) :: (between ++ (t', o) :: after) → o.Supersedes uri →
    (∀ x ∈ between, ¬ x.2.Supersedes uri) →
      firings uri between = [t + delay] ∧ t + delay ≤ t' ∨
      firings uri between = [] ∧ t' ≤ t + delay
  /-- A timer goes off for the last schedule of its document alone, when the
  delay is over and nothing has superseded that, and for the first time. -/
  only : ∀ uri before t after, h = before ++ (t, .fired uri) :: after →
    ∃ earlier since, before = earlier ++ (t - delay, .scheduled uri) :: since ∧
      ∀ x ∈ since, ¬ x.2.Supersedes uri ∧ x.2 ≠ .fired uri

theorem debounced_work (setup : Setup) (hdelay : 0 ≤ setup.delay.nanos)
    (hpunctual : Punctual deeds (.new setup)) :
    Debounced setup.delay.nanos (history deeds (.new setup)) (work deeds (.new setup)) := by
  have hkeeps := keeps_work setup hdelay hpunctual
  refine ⟨live_eq (work deeds (.new setup)) ▸ hkeeps.sound.live_perm, hkeeps.sound.single, ?_, ?_,
    ?_⟩
  · intro uri before t after heq hlast
    rcases firings_of_scheduled (heq ▸ hkeeps.lawful) hlast with ⟨hnone, hstanding⟩ | ⟨hone, -⟩
    · rw [← heq] at hstanding
      exact .inr ⟨hnone, hkeeps.le_of_standing hstanding, hkeeps.lt_of_idle hstanding⟩
    · exact .inl hone
  · intro uri before t between t' o after heq ho hbetween
    -- the run up to what superseded the schedule
    have hsplit : history deeds (.new setup) =
        (before ++ (t, .scheduled uri) :: between) ++ (t', o) :: after := by simpa using heq
    obtain ⟨ds, d, ds', rfl, hbefore, hnow, -⟩ := exists_of_history hsplit
    have hkeeps := keeps_work setup hdelay (punctual_append.mp hpunctual).1
    rw [hbefore] at hkeeps
    rcases firings_of_scheduled hkeeps.lawful hbetween with ⟨hnone, hstanding⟩ | ⟨hone, -⟩
    · exact .inr ⟨hnone, hnow ▸ hkeeps.le_of_standing hstanding⟩
    · refine .inl ⟨hone, ?_⟩
      have hmem : t + setup.delay.nanos ∈ firings uri between := by rw [hone]; simp
      obtain ⟨x, hx, hfired⟩ := List.mem_filterMap.mp hmem
      have hpast := hkeeps.past x (List.mem_append_right _ (List.mem_cons_of_mem _ hx))
      split at hfired
      · rw [hnow] at hpast
        rwa [← Option.some.inj hfired]
      · cases hfired
  · intro uri before t after heq
    exact exists_of_standing (hkeeps.lawful uri before t after heq)

/-! ## What comes of a timer that goes off -/

/-- **What comes of a timer that goes off**, by the next job of a turn. -/
structure Leads (m : Moment) : Prop where
  /-- If the document is not open, nothing is written or published, and no call
  is made. -/
  closed : ∀ uri, m.goesOff? = some uri → (m.engine.relay 0).session? uri = none →
    (Action.job.perform m).engine.record = m.engine.record ∧
      (Action.job.perform m).engine.calls = m.engine.calls ∧
      (Action.job.perform m).jobs = m.jobs.tail
  /-- If it is, one call is made that will ask for its diagnostics. -/
  opened : ∀ uri, m.goesOff? = some uri → (m.engine.relay 0).session? uri ≠ none →
    (Action.job.perform m).engine.record = m.engine.record ∧
      (Action.job.perform m).engine.calls =
        m.engine.calls ++ [(m.engine.lastCall + 1, ⟨.timer 0, .created (.check 0 uri), false⟩)] ∧
      (Action.job.perform m).jobs = m.jobs.tail ++ [.resume (m.engine.lastCall + 1)]
  /-- If the document is not open any more when the call first runs, the call
  fails: nothing is written or published, and the relay stays as it is. -/
  unopened : ∀ id rest uri cancelled, m.todo = .resume id :: rest →
    m.engine.call? id = some ⟨.timer 0, .created (.check 0 uri), cancelled⟩ →
    (m.engine.relay 0).session? uri = none →
    ∃ f, (Action.job.perform m).engine.record = m.engine.record ∧
      (Action.job.perform m).engine.relays = m.engine.relays ∧
      (Action.job.perform m).engine.calls = Table.erase id m.engine.calls ∧
      (Action.job.perform m).jobs = m.jobs.tail ++ [.checkEnded 0 (.error f)]
  /-- Of that the log alone is told. -/
  told : ∀ outcome rest, m.todo = .checkEnded 0 outcome :: rest →
    ∃ lines, (Action.job.perform m).engine.record = m.engine.record ++ lines ∧
      (∀ x ∈ lines, ∃ level text, x = (0, .logged level text)) ∧
      (Action.job.perform m).engine.relays = m.engine.relays ∧
      (Action.job.perform m).engine.calls = m.engine.calls ∧
      (Action.job.perform m).jobs = m.jobs.tail

variable {e : Engine} {timer : Nat} {id : Nat}

/-- A timer that is the document's is the document's no more, and makes a call if
the document is open. -/
theorem fire_of_current (h : e.Orderly)
    (hcurrent : Table.get? uri (e.relay 0).scheduled = some timer) :
    e.fire 0 uri timer =
      if ((e.relay 0).session? uri).isSome then
        (e.setRelay 0 { e.relay 0 with
          scheduled := Table.erase uri (e.relay 0).scheduled }).spawn (.timer 0) (.check 0 uri)
      else e.setRelay 0 { e.relay 0 with
        scheduled := Table.erase uri (e.relay 0).scheduled } := by
  unfold fire
  rw [operate_eq]
  simp only [Relay.fire, if_pos hcurrent]
  rw [takeIn_of_collected
    (r := { e.relay 0 with scheduled := Table.erase uri (e.relay 0).scheduled }) h.collected]
  cases ((e.relay 0).session? uri).isSome <;> rfl

/-- To ask for the diagnostics of a document that is not open is to fail. -/
theorem check_unopened (h : e.Orderly) (hnone : (e.relay 0).session? uri = none) :
    e.check id 0 uri = e.finish id (.error (.invalidState (.notOpen "diagnostics" uri))) := by
  have hsame : e.setRelay 0 (e.relay 0) = e := by
    have hset : e.relays.set 0 (e.relay 0) = e.relays :=
      (relays_setRelay h.alone _).trans h.relays.symm
    change { e with relays := e.relays.set 0 (e.relay 0) } = e
    rw [hset]
  unfold check
  rw [operate_eq]
  simp only [Relay.requestCheck, hnone]
  rw [takeIn_of_collected h.collected, hsame]

/-- A call of a timer that fails leaves word for the log. -/
theorem finish_of_timer {stage : Stage} {cancelled : Bool}
    (hcall : e.call? id = some ⟨.timer 0, stage, cancelled⟩) (f : Failure) :
    e.finish id (.error f) =
      ({ e with calls := Table.erase id e.calls }).post (.checkEnded 0 (.error f)) := by
  unfold finish
  simp only [hcall]
  rfl

theorem leads_of_orderly (h : m.Orderly) : Leads m := by
  obtain ⟨todo, e⟩ := m
  -- a timer goes off by the first job of the turn, while it is the document's
  have hfires : ∀ uri, Moment.goesOff? ⟨todo, e⟩ = some uri → ∃ timer rest,
      todo = .fire 0 uri timer :: rest ∧
        Table.get? uri (e.relay 0).scheduled = some timer := by
    intro uri hgoes
    unfold Moment.goesOff? at hgoes
    split at hgoes
    · rename_i u timer rest htodo
      split at hgoes
      · rename_i hcurrent
        cases hgoes
        exact ⟨timer, rest, htodo, hcurrent⟩
      · cases hgoes
    · cases hgoes
  refine ⟨fun uri hgoes hnone => ?_, fun uri hgoes hopen => ?_, ?_, ?_⟩
  · obtain ⟨timer, rest, rfl, hcurrent⟩ := hfires uri hgoes
    have hfire := fire_of_current h.engine hcurrent
    have hnone : (e.relay 0).session? uri = none := hnone
    simp only [hnone, Option.isSome_none, Bool.false_eq_true, if_false] at hfire
    simp only [Action.perform, dispatch, hfire, Moment.jobs, List.cons_append, List.tail_cons]
    exact ⟨rfl, rfl, rfl⟩
  · obtain ⟨timer, rest, rfl, hcurrent⟩ := hfires uri hgoes
    have hfire := fire_of_current h.engine hcurrent
    have hsome : ((e.relay 0).session? uri).isSome := Option.isSome_iff_ne_none.mpr hopen
    -- the call has a number of its own, so it stands behind all others
    have hcalls := calls_spawn h.engine.made (.timer 0) (.check 0 uri)
    simp only [hsome, if_true] at hfire
    simp only [Action.perform, dispatch, hfire, Moment.jobs, List.cons_append, List.tail_cons]
    exact ⟨rfl, hcalls, (List.append_assoc _ _ _).symm⟩
  · intro id rest uri cancelled htodo hcall hnone
    obtain rfl : todo = .resume id :: rest := htodo
    obtain ⟨f, hresumed⟩ : ∃ f, e.resume id = e.finish id (.error f) := by
      simp only [resume, show e.call? id = _ from hcall]
      cases cancelled with
      | true => exact ⟨_, rfl⟩
      | false => exact ⟨_, check_unopened h.engine hnone⟩
    refine ⟨f, ?_⟩
    simp only [Action.perform, dispatch, hresumed, finish_of_timer hcall f, Moment.jobs,
      List.cons_append, List.tail_cons]
    exact ⟨rfl, rfl, rfl, (List.append_assoc _ _ _).symm⟩
  · intro outcome rest htodo
    obtain rfl : todo = .checkEnded 0 outcome :: rest := htodo
    simp only [Action.perform, dispatch, checkEnded, Moment.jobs, List.cons_append, List.tail_cons]
    split
    · exact ⟨[], (List.append_nil _).symm, by simp, rfl, rfl, rfl⟩
    · exact ⟨[], (List.append_nil _).symm, by simp, rfl, rfl, rfl⟩
    · exact ⟨[_], rfl, by simp, rfl, rfl, rfl⟩

/-- **Debouncing.** In every run in which time passes as it does for an event loop,
timers are debounced, and a timer that goes off for a document that is not
open, then or when its call first runs, writes and publishes nothing. -/
theorem debounce (setup : Setup) (hdelay : 0 ≤ setup.delay.nanos) (deeds : List Deed)
    (hpunctual : Punctual deeds (.new setup)) :
    Debounced setup.delay.nanos (history deeds (.new setup)) (work deeds (.new setup)) ∧
      Leads (work deeds (.new setup)) :=
  ⟨debounced_work setup hdelay hpunctual, leads_of_orderly (orderly_work setup (meet_any deeds _))⟩

/-- Checks are held back for a fifth of a second. -/
def heldBack : Setup := { Relay.syntaxOnly with delay := .ofMillis 200 }

/-- A check is scheduled, and again before the first timer comes due. -/
def scheduledTwice : List Deed :=
  [.opened "file:///a.ts" "typescript" 1 "x", .scheduled "file:///a.ts", .plain (.pass 100000000),
    .scheduled "file:///a.ts", .plain (.pass 300000000), .plain .turn, .plain .job]

/-- Of two timers set in quick succession the second goes off alone. -/
theorem debounce_scheduledTwice :
    (0 ≤ heldBack.delay.nanos ∧ Punctual scheduledTwice (.new heldBack)) ∧
      history scheduledTwice (.new heldBack) =
        [(0, .scheduled "file:///a.ts"), (100000000, .scheduled "file:///a.ts"),
          (300000000, .fired "file:///a.ts")] ∧
      Debounced heldBack.delay.nanos (history scheduledTwice (.new heldBack))
        (work scheduledTwice (.new heldBack)) ∧
      Leads (work scheduledTwice (.new heldBack)) := by
  have hdelay : 0 ≤ heldBack.delay.nanos := by decide
  have hpunctual : Punctual scheduledTwice (.new heldBack) := by
    refine ⟨trivial, trivial, ⟨⟨rfl, rfl⟩, ?_⟩, trivial, ⟨⟨rfl, rfl⟩, ?_⟩, trivial, trivial, trivial⟩
    · decide
    · decide
  exact ⟨⟨hdelay, hpunctual⟩, by with_unfolding_all rfl,
    debounce heldBack hdelay scheduledTwice hpunctual⟩

/-- A check is scheduled over a connection that has ended. -/
def scheduledLate : List Deed :=
  [.opened "file:///a.ts" "typescript" 1 "x", .plain (.close .unexplained), .scheduled "file:///a.ts"]

/-- The document is closed and opened again, and time goes by. -/
def openedAgain : List Deed :=
  [.closed "file:///a.ts", .opened "file:///a.ts" "typescript" 2 "y", .plain (.pass 200000000),
    .plain .turn]

/-- **A closing that fails takes a timer back as well.** The schedule is followed by
no other, by no closing that succeeds and by no end of the connection; the
document is open when the delay is over, and yet no timer goes off. -/
theorem timer_lost_to_failed_closing :
    Punctual (scheduledLate ++ openedAgain) (.new heldBack) ∧
      (((work scheduledLate (.new heldBack)).engine.relay 0).didClose "file:///a.ts").2.isSome ∧
      history (scheduledLate ++ openedAgain) (.new heldBack) =
        [(0, .disconnected), (0, .scheduled "file:///a.ts"), (0, .withdrawn "file:///a.ts")] ∧
      (((work (scheduledLate ++ openedAgain) (.new heldBack)).engine.relay 0).session?
        "file:///a.ts").isSome ∧
      (work (scheduledLate ++ openedAgain) (.new heldBack)).Idle ∧
      (work (scheduledLate ++ openedAgain) (.new heldBack)).engine.agenda.now =
        heldBack.delay.nanos := by
  refine ⟨?_, by with_unfolding_all rfl, by with_unfolding_all rfl, by with_unfolding_all rfl,
    ⟨by with_unfolding_all rfl, by with_unfolding_all rfl⟩, by with_unfolding_all rfl⟩
  refine ⟨trivial, trivial, trivial, trivial, trivial, ⟨⟨by with_unfolding_all rfl,
    by with_unfolding_all rfl⟩, ?_⟩, trivial, trivial⟩
  with_unfolding_all decide

end Engine

end LanguageRelay
