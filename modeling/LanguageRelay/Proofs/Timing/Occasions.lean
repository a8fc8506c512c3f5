import LanguageRelay.Proofs.Editing.Doings
import LanguageRelay.Proofs.Timing.Timetables
/-!
# Occasions

A deed is an occasion for the timer of a document, or for none
(`Deed.occasion?`), and a step of the timetable accordingly (`step_deed`), if
time passes as it does for an event loop: when nothing can run, and no further
than to the next time that a job waits for (`Punctual`).
-/

namespace LanguageRelay

namespace Engine

/-- The document whose timer goes off by the next job of the turn: the timer is
still the document's. -/
def Moment.goesOff? (m : Moment) : Option String :=
  match m.todo with
  | .fire 0 uri timer :: _ =>
    if Table.get? uri (m.engine.relay 0).scheduled = some timer then some uri else none
  | _ => none

/-- Opening or changing a document schedules a check, where it is set up to and
has not failed. -/
def announced? (uri : String) (done : Relay × Option Failure) : Option Occasion :=
  if done.2.isNone ∧ done.1.setup.autoCheck then some (.scheduled uri) else none

/-- **What a deed is to timers**, if it is anything to them. -/
def Deed.occasion? (m : Moment) : Deed → Option Occasion
  | opened uri languageId version text =>
    announced? uri ((m.engine.relay 0).openDocument uri languageId version text)
  | changed uri version changes =>
    announced? uri ((m.engine.relay 0).changeDocument uri version changes)
  | scheduled uri => some (.scheduled uri)
  | closed uri => ((m.engine.relay 0).session? uri).map fun _ => .withdrawn uri
  | plain (.close _) => if (m.engine.relay 0).link.closed.isNone then some .disconnected else none
  | plain .job => m.goesOff?.map .fired
  | _ => none

/-! ## Punctual runs -/

/-- Nothing can run at this moment. -/
def Moment.Idle (m : Moment) : Prop := m.todo = [] ∧ m.engine.agenda.isIdle

/-- Time passes when nothing can run, and no further than to the next time that
a job waits for. -/
def Deed.Timely (m : Moment) : Deed → Prop
  | plain (.pass time) => m.Idle ∧ ∀ t ∈ m.engine.agenda.timers, time ≤ t.due
  | _ => True

/-- In all deeds time passes as it should. -/
def Punctual : List Deed → Moment → Prop
  | [], _ => True
  | d :: rest, m => d.Timely m ∧ Punctual rest (d.perform m)

theorem punctual_append {deeds more : List Deed} {m : Moment} :
    Punctual (deeds ++ more) m ↔ Punctual deeds m ∧ Punctual more (work deeds m) := by
  induction deeds generalizing m with
  | nil => simp [Punctual]
  | cons d rest ih => simp [Punctual, ih, and_assoc]

/-- The next due time within a limit, or else the limit, is no later than any
time that a job waits for. -/
theorem nextDue?_le (limit : Int) (a : Agenda Job) :
    ∀ t ∈ a.timers, (a.nextDue? limit).getD limit ≤ t.due := by
  -- the best time so far is within the limit, and only gets better
  suffices hgen : ∀ (dues : List Int) (best : Option Int), (∀ b ∈ best, b ≤ limit) →
      ((dues.foldl (fun best d => if d ≤ limit ∧ best.all (d < ·) then some d else best)
          best).getD limit ≤ best.getD limit) ∧
        ∀ d ∈ dues, (dues.foldl (fun best d =>
          if d ≤ limit ∧ best.all (d < ·) then some d else best) best).getD limit ≤ d by
    exact fun t ht => (hgen _ none (by simp)).2 t.due (List.mem_map_of_mem ht)
  intro dues
  induction dues with
  | nil => exact fun best _ => ⟨Int.le_refl _, by simp⟩
  | cons d rest ih =>
    intro best hbest
    simp only [List.foldl_cons, List.forall_mem_cons]
    split
    · rename_i hbetter
      obtain ⟨hle, hrest⟩ := ih (some d) (by simpa using hbetter.1)
      refine ⟨Int.le_trans hle ?_, hle, hrest⟩
      cases best with
      | none => exact hbetter.1
      | some b => exact Int.le_of_lt (by simpa using hbetter.2)
    · rename_i hworse
      obtain ⟨hle, hrest⟩ := ih best hbest
      refine ⟨hle, Int.le_trans hle ?_, hrest⟩
      cases best with
      | none =>
        simp only [Option.all_none, and_true] at hworse
        exact Int.le_of_lt (Int.not_le.mp hworse)
      | some b =>
        have hb := hbest b rfl
        simp only [Option.all_some, decide_eq_true_eq] at hworse
        simp only [Option.getD_some]
        omega

/-- **The engine lets time pass as it should**: at rest, to the next due time
within a limit or else to the limit. -/
theorem timely_pass {m : Moment} (hidle : m.Idle) (limit : Int) :
    Deed.Timely m (.plain (.pass ((m.engine.agenda.nextDue? limit).getD limit))) :=
  ⟨hidle, nextDue?_le limit _⟩

/-- The timetable in the middle of a turn. -/
def Moment.timetable (m : Moment) : Timetable :=
  { m.engine.timetable with
    agenda := { m.engine.timetable.agenda with
      ready := m.todo.filterMap Job.alarm? ++ m.engine.timetable.agenda.ready } }

end Engine

namespace Agenda

/-- The alarms that wait for certain times. -/
theorem alarms_filter (p : Int → Bool) (timers : List (Timer Job)) :
    (timers.filter fun t => p t.due).filterMap (fun t => t.job.alarm?.map (Timer.mk t.due)) =
      (timers.filterMap fun t => t.job.alarm?.map (Timer.mk t.due)).filter fun t => p t.due := by
  rw [List.filterMap_filter, List.filter_filterMap]
  refine List.filterMap_congr fun t _ => ?_
  cases t.job.alarm? <;> cases hp : p t.due <;> simp [Option.filter_some, hp]

/-- The alarms among the jobs that are due. -/
theorem alarms_due (a : Agenda Job) :
    ((a.due.map Timer.job).filterMap Job.alarm?).Perm
      ((a.alarms.timers.filter fun t => t.due ≤ a.now).map Timer.job) := by
  -- jobs fall in by their time, which does not matter to one document
  have hsorted : a.due.Perm (a.timers.filter fun t => decide (t.due ≤ a.now)) :=
    List.mergeSort_perm _ _
  refine ((hsorted.map Timer.job).filterMap Job.alarm?).trans (.of_eq ?_)
  rw [alarms, ← alarms_filter fun due => decide (due ≤ a.now), List.filterMap_map,
    List.map_filterMap]
  refine List.filterMap_congr fun t _ => ?_
  simp [Function.comp_def]

end Agenda

namespace Engine

variable {t : Terms} {m : Moment} {d : Deed} {e : Engine} {r : Relay}

open Timetable (Step)

/-! ## Deeds are steps -/

/-- What a relay owes nobody is nothing. -/
theorem owed_eq_nil (h : e.Orderly) : e.timetable.relay.owed = [] := by
  simp [timetable, Relay.timing, h.collected]

/-- What a relay did is done to the alarms, also to those of the turn. -/
theorem timetable_deed (h : m.Orderly) (r : Relay) :
    Moment.timetable { m with engine := m.engine.takeIn r } =
      ⟨{ r.timing with owed := [] },
        r.timing.owed.foldl (Agenda.tune r.timing.delay) m.timetable.agenda⟩ := by
  simp only [Moment.timetable, timetable_takeIn h.engine.alone, Agenda.foldl_tune_ready,
    Agenda.ready_foldl_tune]
  rfl

/-- What leaves the timetable of the engine leaves that of the moment. -/
theorem timetable_same {e' : Engine} (h : e'.timetable = m.engine.timetable) :
    Moment.timetable { m with engine := e' } = m.timetable := by
  simp only [Moment.timetable, h]

/-- An operation that has nothing to do with timers is no step to speak of. -/
theorem step_untimed (h : m.Orderly) (hr : r.timing = (m.engine.relay 0).timing) :
    Step none m.timetable (Moment.timetable { m with engine := m.engine.takeIn r }) := by
  have howed : (m.engine.relay 0).timing.owed = [] := owed_eq_nil h.engine
  have hsame : Moment.timetable { m with engine := m.engine.takeIn r } = m.timetable := by
    rw [timetable_deed h, hr, howed]
    exact congrArg (Timetable.mk · _) (congrArg (Relay.Timing.mk _ _ _) howed.symm)
  rw [hsame]
  exact .same _

theorem timetable_relay (h : m.Orderly) : m.timetable.relay =
    ⟨(m.engine.relay 0).scheduled, (m.engine.relay 0).lastTimer,
      (m.engine.relay 0).setup.delay.nanos, []⟩ :=
  congrArg (Relay.Timing.mk _ _ _) (owed_eq_nil h.engine)

/-- **A check that is scheduled sets a timer.** -/
theorem step_schedule (h : m.Orderly) (hr : r.timing = (m.engine.relay 0).timing) (uri : String) :
    Step (some (.scheduled uri)) m.timetable
      (Moment.timetable { m with engine := m.engine.takeIn (r.schedule uri) }) := by
  have hscheduled : r.scheduled = (m.engine.relay 0).scheduled := congrArg Relay.Timing.scheduled hr
  have hlast : r.lastTimer = (m.engine.relay 0).lastTimer := congrArg Relay.Timing.last hr
  have hstep := Step.scheduled m.timetable uri
  rw [timetable_relay h] at hstep
  rw [timetable_deed h, Relay.timing_schedule, hscheduled, hlast, hr]
  simpa [Relay.timing, h.engine.collected] using hstep

/-- So may opening or changing a document. -/
theorem step_announced (h : m.Orderly) (uri : String) {done : Relay × Option Failure}
    (hdone : done.1.timing = (m.engine.relay 0).timing) :
    Step (announced? uri done) m.timetable
      (Moment.timetable { m with engine := m.engine.takeIn (Relay.autoSchedule uri done).1 }) := by
  obtain ⟨r, failure⟩ := done
  cases failure with
  | some f => exact step_untimed h hdone
  | none =>
    cases hauto : r.setup.autoCheck with
    | true =>
      simp only [announced?, Relay.autoSchedule, Option.isNone_none, hauto, and_self, if_true]
      exact step_schedule h hdone uri
    | false =>
      simp only [announced?, Relay.autoSchedule, hauto, Bool.false_eq_true, and_false, if_false]
      exact step_untimed h hdone

/-- **A document that is closed has its timer taken back.** -/
theorem step_close (h : m.Orderly) (uri : String) :
    Step (((m.engine.relay 0).session? uri).map fun _ => .withdrawn uri) m.timetable
      (Moment.timetable
        { m with engine := m.engine.takeIn ((m.engine.relay 0).didClose uri).1 }) := by
  cases hopen : (m.engine.relay 0).session? uri with
  | none =>
    have hsame : ((m.engine.relay 0).didClose uri).1 = m.engine.relay 0 := by
      unfold Relay.didClose Relay.closeDocument Relay.require
      simp only [hopen]
    rw [hsame]
    exact step_untimed h rfl
  | some s =>
    have hstep := Step.withdrawn m.timetable uri
    rw [timetable_relay h] at hstep
    rw [timetable_deed h, Relay.timing_didClose hopen, Relay.timing_disarm]
    simpa [Relay.timing, h.engine.collected] using hstep

/-- **The end of the connection takes every timer back.** -/
theorem step_disconnect (h : m.Orderly) (cause : Closure) :
    Step (if (m.engine.relay 0).link.closed.isNone then some .disconnected else none) m.timetable
      (Moment.timetable
        { m with engine := m.engine.takeIn ((m.engine.relay 0).disconnect cause) }) := by
  cases hup : (m.engine.relay 0).link.closed with
  | some first =>
    rw [Relay.disconnect_of_closed (by simp [hup])]
    exact step_untimed h rfl
  | none =>
    have hstep := Step.disconnected m.timetable
    rw [timetable_relay h] at hstep
    rw [timetable_deed h, Relay.timing_disconnect hup]
    simpa [Relay.timing, h.engine.collected] using hstep

/-- A turn begins: the alarms that are due fall in. -/
theorem step_beginTurn_alarms (e : Engine) :
    Step none (Moment.timetable ⟨[], e⟩) (Moment.beginTurn e).timetable := by
  have hstep := Step.turned (T := Moment.timetable ⟨[], e⟩) (Agenda.alarms_due e.agenda)
  have htimers := Agenda.alarms_filter (fun due => !decide (due ≤ e.agenda.now)) e.agenda.timers
  simp only [Moment.timetable, Moment.beginTurn, timetable, Agenda.collectDue, Agenda.alarms,
    List.filterMap_append, List.filterMap_nil, List.nil_append, List.append_nil] at hstep ⊢
  rw [htimers]
  exact hstep

/-- A timer that comes due goes off if it is still the document's. -/
theorem step_fire {todo : List Job} (h : Moment.Orderly ⟨todo, e⟩) {uri : String} {timer : Nat}
    {rest : List Job} (htodo : todo = .fire 0 uri timer :: rest) :
    Step ((Moment.goesOff? ⟨todo, e⟩).map .fired) (Moment.timetable ⟨todo, e⟩)
      (Moment.timetable ⟨rest, e.fire 0 uri timer⟩) := by
  subst htodo
  have hfired : (e.fire 0 uri timer).timetable =
      (e.takeIn ((e.relay 0).fire uri timer).1).timetable := by
    unfold fire
    rw [operate_eq]
    cases ((e.relay 0).fire uri timer).2 with
    | true => exact timetable_spawn _ _ _
    | false => rfl
  have howed : (e.relay 0).timing.owed = [] := owed_eq_nil h.engine
  -- an alarm sets no timer and takes none back, so the agenda stays
  rw [timetable_takeIn h.engine.alone, Relay.timing_fire, howed] at hfired
  have hline : (Moment.timetable ⟨.fire 0 uri timer :: rest, e⟩).agenda.ready =
      (uri, timer) :: (rest.filterMap Job.alarm? ++ e.timetable.agenda.ready) := rfl
  simp only [Moment.goesOff?]
  split
  · rename_i hcurrent
    have hstep := Step.fired hline hcurrent
    simp only [hcurrent, if_true] at hfired
    rw [timetable_relay h] at hstep
    simp only [Moment.timetable, hfired]
    exact hstep
  · rename_i hspent
    have hstep := Step.spent hline hspent
    simp only [hspent, if_false] at hfired
    have hsame : (e.fire 0 uri timer).timetable = e.timetable := by
      rw [hfired]
      exact congrArg (Timetable.mk · _) (congrArg (Relay.Timing.mk _ _ _) howed.symm)
    simp only [Moment.timetable, hsame]
    exact hstep

/-- A job that is no alarm has nothing to do with alarms. -/
theorem timetable_dispatch (h : e.Orderly) {job : Job} (hlocal : job.Local)
    (hjob : job.alarm? = none) : (e.dispatch job).timetable = e.timetable := by
  have howed := owed_eq_nil h
  cases job with
  | resume id => exact timetable_resume h howed id
  | passOn id seq => exact timetable_passOn id seq e
  | expire id seq => exact timetable_expire id seq e
  | fire i uri timer =>
    cases (show i = 0 from hlocal)
    cases hjob
  | partEnded whole outcome => exact timetable_partEnded whole outcome e
  | checkEnded i outcome =>
    cases (show i = 0 from hlocal)
    exact timetable_checkEnded outcome e

/-- The next job of a turn is done. -/
theorem step_job (h : m.Orderly) :
    Step (m.goesOff?.map .fired) m.timetable (Action.job.perform m).timetable := by
  obtain ⟨todo, e⟩ := m
  cases todo with
  | nil => exact .same _
  | cons job rest =>
    have hlocal := h.todo job List.mem_cons_self
    cases halarm : job.alarm? with
    | none =>
      have hsame : Moment.timetable ⟨rest, e.dispatch job⟩ = Moment.timetable ⟨job :: rest, e⟩ := by
        simp only [Moment.timetable, timetable_dispatch h.engine hlocal halarm,
          List.filterMap_cons, halarm]
      have hquiet : Moment.goesOff? ⟨job :: rest, e⟩ = none := by
        unfold Moment.goesOff?
        split
        · rename_i heq
          cases heq
          cases halarm
        · rfl
      change Step _ _ (Moment.timetable ⟨rest, e.dispatch job⟩)
      rw [hsame, hquiet]
      exact .same _
    | some x =>
      cases job with
      | fire i uri timer =>
        cases (show i = 0 from hlocal)
        exact step_fire h rfl
      | _ => cases halarm

/-- The alarms that wait are among the jobs that wait. -/
theorem mem_alarms_timers {x : Timer Alarm} (h : x ∈ m.timetable.agenda.timers) :
    ∃ t ∈ m.engine.agenda.timers, t.due = x.due ∧ t.job.alarm? = some x.job := by
  obtain ⟨t, ht, hx⟩ := List.mem_filterMap.mp h
  obtain ⟨alarm, halarm, rfl⟩ := Option.map_eq_some_iff.mp hx
  exact ⟨t, ht, rfl, halarm⟩

/-- Where nothing can run there is no alarm in line, and none due. -/
theorem Moment.Idle.alarms (h : m.Idle) : m.timetable.agenda.ready = [] ∧
    ∀ x ∈ m.timetable.agenda.timers, m.timetable.agenda.now < x.due := by
  obtain ⟨htodo, hidle⟩ := h
  simp only [Agenda.isIdle, Bool.and_eq_true, List.isEmpty_iff, List.all_eq_true,
    decide_eq_true_eq] at hidle
  obtain ⟨hready, hwaits⟩ := hidle
  refine ⟨?_, fun x hx => ?_⟩
  · simp [Moment.timetable, Engine.timetable, Agenda.alarms, htodo, hready]
  · obtain ⟨t, ht, hdue, -⟩ := mem_alarms_timers hx
    exact hdue ▸ hwaits t ht

/-- The clock moves on. -/
theorem step_pass {time : Int} (h : Deed.Timely m (.plain (.pass time))) :
    Step none m.timetable (Action.pass time |>.perform m).timetable := by
  obtain ⟨hidle, hdue⟩ := h
  obtain ⟨hline, hwaits⟩ := hidle.alarms
  refine .passed time hline fun x hx => ⟨hwaits x hx, ?_⟩
  obtain ⟨t, ht, heq, -⟩ := mem_alarms_timers hx
  exact heq ▸ hdue t ht

/-- **Every deed is a step of the timetable.** -/
theorem step_deed (h : m.Orderly) (htimely : d.Timely m) :
    Step (d.occasion? m) m.timetable (d.perform m).timetable := by
  have hsame : ∀ {e' : Engine}, e'.timetable = m.engine.timetable →
      Step none m.timetable (Moment.timetable { m with engine := e' }) := by
    intro e' he'
    rw [timetable_same he']
    exact .same _
  cases d with
  | opened uri languageId version text =>
    have hstep := step_announced h uri
      (Relay.frame_timing.openDocument uri languageId version text (m.engine.relay 0))
    simpa only [Deed.occasion?, Deed.perform, operate_eq, Relay.didOpen] using hstep
  | changed uri version changes =>
    have hstep := step_announced h uri
      (Relay.frame_timing.changeDocument uri version changes (m.engine.relay 0))
    simpa only [Deed.occasion?, Deed.perform, operate_eq, Relay.didChange] using hstep
  | closed uri => exact step_close h uri
  | ended => exact step_untimed h (Relay.frame_timing.shutdown _)
  | scheduled uri => exact step_schedule h rfl uri
  | query name q => exact hsame (timetable_spawn _ _ _)
  | check name uri => exact hsame (timetable_spawn _ _ _)
  | checkAll name => exact hsame (timetable_spawn _ _ _)
  | plain a =>
    cases a with
    | request name command arguments window => exact hsame (timetable_spawn _ _ _)
    | notify command arguments => exact step_untimed h (Relay.timing_notify _ _ _)
    | receive message => exact step_untimed h (Relay.timing_receive _ _)
    | close cause => exact step_disconnect h cause
    | cancel id => exact hsame (timetable_cancel h.engine id)
    | pass time =>
      exact step_pass htimely
    | turn =>
      obtain ⟨todo, e⟩ := m
      cases todo with
      | nil => exact step_beginTurn_alarms e
      | cons job rest => exact .same _
    | job => exact step_job h

end Engine

end LanguageRelay
