import LanguageRelay.Proofs.Editing.Jobs
import LanguageRelay.Proofs.Timing.Timers
/-!
# Alarms

Among the jobs of an engine those of document timers are its *alarms*. They
and what the relay has to do with timers make up the *timetable*. An operation
of the relay changes it by the timers it sets and takes back
(`timetable_takeIn`); whatever else the engine does leaves it as it is, with
the exception of an alarm that goes off.
-/

namespace LanguageRelay

/-- A timer of a document: the document, and the number of the timer. -/
abbrev Alarm := String × Nat

/-- The timer of a document that the job is of. -/
def Job.alarm? : Job → Option Alarm
  | .fire 0 uri timer => some (uri, timer)
  | _ => none

namespace Agenda

variable {a : Agenda Job} {job : Job}

/-- The document timers of an agenda. -/
def alarms (a : Agenda Job) : Agenda Alarm where
  now := a.now
  ready := a.ready.filterMap Job.alarm?
  timers := a.timers.filterMap fun t => t.job.alarm?.map (Timer.mk t.due)

/-- Timers are set and taken back. -/
def tune (delay : Int) (a : Agenda Alarm) : Effect → Agenda Alarm
  | .armed uri timer => a.setTimer delay (uri, timer)
  | .disarmed uri timer => a.dropTimers (· == (uri, timer))
  | _ => a

theorem alarms_post (h : job.alarm? = none) (a : Agenda Job) : (a.post job).alarms = a.alarms := by
  simp [alarms, post, List.filterMap_append, h]

theorem alarms_setTimer (h : job.alarm? = none) (delay : Int) (a : Agenda Job) :
    (a.setTimer delay job).alarms = a.alarms := by
  simp [alarms, setTimer, List.filterMap_append, h]

/-- Timers that are no alarms are taken back. -/
theorem alarms_dropTimers {p : Job → Bool} (h : ∀ job, p job → job.alarm? = none)
    (a : Agenda Job) : (a.dropTimers p).alarms = a.alarms := by
  simp only [alarms, dropTimers, List.filterMap_filter, mk.injEq, true_and]
  refine List.filterMap_congr fun t _ => ?_
  cases hp : p t.job with
  | true => simp [h t.job hp]
  | false => simp

/-- **Alarms are set and taken back as the relay says.** -/
theorem alarms_heed (delay : Int) (a : Agenda Job) (e : Effect) :
    (heed delay a e).alarms = tune delay a.alarms e := by
  cases e with
  | armed uri timer => simp [heed, tune, alarms, setTimer, List.filterMap_append, Job.alarm?]
  | disarmed uri timer =>
    simp only [heed, tune, alarms, dropTimers, List.filterMap_filter, List.filter_filterMap,
      mk.injEq, true_and]
    refine List.filterMap_congr fun t _ => ?_
    obtain ⟨due, job⟩ := t
    cases job with
    | fire relay u n =>
      cases relay with
      | zero =>
        by_cases hu : u = uri <;> by_cases hn : n = timer <;>
          simp [Job.alarm?, Job.isTimer, Option.filter_some, hu, hn]
      | succ i => simp [Job.alarm?, Job.isTimer]
    | _ => simp [Job.alarm?, Job.isTimer]
  | _ => rfl

/-- What is not about timers is passed over. -/
theorem foldl_tune_filter (delay : Int) (fx : List Effect) (a : Agenda Alarm) :
    (fx.filter Effect.ofTimers).foldl (tune delay) a = fx.foldl (tune delay) a := by
  induction fx generalizing a with
  | nil => rfl
  | cons e rest ih =>
    cases e <;> simp only [List.filter, Effect.ofTimers, List.foldl_cons, ih] <;> rfl

end Agenda

/-- What a relay has to do with timers, and the timers that are set. -/
structure Timetable where
  relay : Relay.Timing
  agenda : Agenda Alarm

namespace Engine

/-- The timetable of the first relay. -/
def timetable (e : Engine) : Timetable := ⟨(e.relay 0).timing, e.agenda.alarms⟩

variable {e e' : Engine} {r : Relay} {id seq : Nat}

/-! ## Taking in -/

@[simp] theorem timetable_post {job : Job} (h : job.alarm? = none) (e : Engine) :
    (e.post job).timetable = e.timetable :=
  congrArg (Timetable.mk _) (Agenda.alarms_post h e.agenda)

/-- An outcome of a command puts a job of a call in line. -/
theorem timetable_answered (i seq : Nat) (o : Except Failure Json) (e : Engine) :
    (e.answered i seq o).timetable = e.timetable := by
  unfold answered
  split
  · rfl
  · split
    · simp only []
      split <;> exact timetable_post rfl _
    · rfl

theorem timetable_released (waiter : Nat) (o : Except Failure Unit) (e : Engine) :
    (e.released waiter o).timetable = e.timetable := by
  unfold released
  split
  · exact timetable_post rfl _
  · rfl

/-- **What the relay did to a timer is done to the alarms.** -/
theorem timetable_deliver (e : Engine) (x : Effect) :
    (deliver 0 e x).timetable =
      { e.timetable with
        agenda := Agenda.tune e.timetable.relay.delay e.timetable.agenda x } := by
  cases x with
  | answered seq o => exact timetable_answered 0 seq o e
  | released waiter o => exact timetable_released waiter o e
  | armed uri timer =>
    exact congrArg (Timetable.mk _) (Agenda.alarms_heed _ e.agenda (.armed uri timer))
  | disarmed uri timer =>
    exact congrArg (Timetable.mk _) (Agenda.alarms_heed 0 e.agenda (.disarmed uri timer))
  | _ => rfl

theorem timetable_effects (fx : List Effect) (e : Engine) :
    (fx.foldl (deliver 0) e).timetable =
      { e.timetable with
        agenda := fx.foldl (Agenda.tune e.timetable.relay.delay) e.timetable.agenda } := by
  induction fx generalizing e with
  | nil => rfl
  | cons x rest ih => rw [List.foldl_cons, ih, timetable_deliver, List.foldl_cons]

/-- **An operation of the relay changes the alarms by the timers it set and
took back.** -/
theorem timetable_takeIn (h : e.relays.length = 1) (r : Relay) :
    (e.takeIn r).timetable =
      ⟨{ r.timing with owed := [] },
        r.timing.owed.foldl (Agenda.tune r.timing.delay) e.agenda.alarms⟩ := by
  have hset : (e.setRelay 0 { r with outbox := [] }).timetable =
      ⟨{ r.timing with owed := [] }, e.agenda.alarms⟩ := by
    rw [timetable, relay_setRelay h]
    rfl
  rw [takeIn, timetable_effects, hset, Relay.timing, Agenda.foldl_tune_filter]

/-! ## What has nothing to do with alarms -/

theorem relay_setRelay_cases (r : Relay) (e : Engine) :
    (e.setRelay 0 r).relay 0 = r ∨ (e.setRelay 0 r).relay 0 = e.relay 0 := by
  cases hrelays : e.relays with
  | nil => simp [relay, setRelay, hrelays]
  | cons r' rest => simp [relay, setRelay, hrelays]

/-- A relay is set that has the same to do with timers. -/
theorem timetable_setRelay (h : r.timing = (e.relay 0).timing) :
    (e.setRelay 0 r).timetable = e.timetable := by
  unfold timetable
  rcases relay_setRelay_cases r e with hrelay | hrelay <;> rw [hrelay]
  · exact congrArg (Timetable.mk · _) h
  · rfl

theorem timetable_mapRelay {f : Relay → Relay} (h : ∀ r, (f r).timing = r.timing) (e : Engine) :
    (e.mapRelay 0 f).timetable = e.timetable :=
  timetable_setRelay (h _)

theorem timetable_withdraw (seq : Nat) (e : Engine) :
    (e.mapRelay 0 (Relay.withdraw seq)).timetable = e.timetable :=
  timetable_mapRelay (f := Relay.withdraw seq) (fun _ => rfl) e

/-- An operation that has nothing to do with timers leaves the timetable. -/
theorem timetable_operate {α : Type} {f : Relay → Relay × α}
    (hf : ∀ r, (f r).1.timing = r.timing) (howed : e.timetable.relay.owed = []) :
    (e.operate 0 f).1.timetable = e.timetable := by
  have hsame := hf (e.relay 0)
  have hset : (e.setRelay 0 { (f (e.relay 0)).1 with outbox := [] }).timetable = e.timetable := by
    refine timetable_setRelay ?_
    have hnone : (f (e.relay 0)).1.timing.owed = [] := by rw [hsame]; exact howed
    rw [← hsame]
    exact congrArg (Relay.Timing.mk _ _ _) hnone.symm
  have hnone : (f (e.relay 0)).1.outbox.filter Effect.ofTimers = [] :=
    (congrArg Relay.Timing.owed hsame).trans howed
  rw [operate_eq, takeIn, timetable_effects, hset, ← Agenda.foldl_tune_filter, hnone]
  rfl

theorem timetable_report (role : Role) (outcome : Except Failure Answer) (e : Engine) :
    (e.report role outcome).timetable = e.timetable := by
  unfold report
  split
  · rfl
  · exact timetable_post rfl e
  · exact timetable_post rfl e

theorem timetable_keep (id : Nat) (answer : Answer) (e : Engine) :
    (e.keep id answer).1.timetable = e.timetable := by
  obtain ⟨handedOut, hkeep⟩ := keep_eq id answer e
  rw [hkeep]
  rfl

@[simp] theorem timetable_finish (id : Nat) (outcome : Except Failure Answer) (e : Engine) :
    (e.finish id outcome).timetable = e.timetable := by
  unfold finish
  split
  · rfl
  · simp only []
    split
    · exact timetable_report _ _ _
    · exact (timetable_report _ _ _).trans (timetable_keep _ _ _)

/-! ## Running on -/

theorem timetable_spawn (role : Role) (work : Work) (e : Engine) :
    (e.spawn role work).timetable = e.timetable :=
  timetable_post rfl _

variable {next : Continuation} {after : After}

/-- A call that writes a command sets a timer of its own at most. -/
theorem timetable_ask (howed : e.timetable.relay.owed = []) (id : Nat) (a : Ask) (after : After) :
    (e.ask id 0 a (.answer after)).timetable = e.timetable := by
  have hasked := timetable_operate (Relay.timing_ask a.command a.arguments) howed
  unfold ask
  split
  · rename_i heq
    rw [heq] at hasked
    exact (timetable_finish _ _ _).trans hasked
  · rename_i e' s heq
    rw [heq] at hasked
    split
    · exact hasked
    · split
      · exact (timetable_post rfl _).trans
          ((timetable_withdraw s e').trans hasked)
      · exact (congrArg (Timetable.mk _) (Agenda.alarms_setTimer rfl _ _)).trans hasked

theorem timetable_query (howed : e.timetable.relay.owed = []) (id : Nat) (q : Query) :
    (e.query id 0 q).timetable = e.timetable := by
  unfold query
  split
  · exact timetable_finish _ _ e
  · exact timetable_ask howed _ _ _

theorem timetable_check (howed : e.timetable.relay.owed = []) (id : Nat) (uri : String) :
    (e.check id 0 uri).timetable = e.timetable := by
  have hasked := timetable_operate (Relay.frame_timing.requestCheck uri id) howed
  unfold check
  split
  all_goals
    rename_i heq
    rw [heq] at hasked
    first
      | exact (timetable_finish _ _ _).trans hasked
      | exact hasked

theorem timetable_spawnChecks (whole : Nat) (uris : List String) (e : Engine) :
    (e.spawnChecks whole 0 uris).timetable = e.timetable := by
  induction uris generalizing e with
  | nil => rfl
  | cons uri rest ih => exact (ih _).trans (timetable_spawn _ _ e)

theorem timetable_checkAll (id : Nat) (e : Engine) :
    (e.checkAll id 0).timetable = e.timetable := by
  unfold checkAll
  simp only []
  split
  · exact timetable_finish _ _ e
  · exact timetable_spawnChecks id _ e

theorem timetable_proceed (howed : e.timetable.relay.owed = []) (id : Nat)
    (outcome : Except Failure Json) :
    (e.proceed id 0 (.answer after) outcome).timetable = e.timetable := by
  unfold proceed
  simp only []
  split
  · exact timetable_finish _ _ e
  · exact timetable_ask howed _ _ _

/-- The timer a call takes back is its own. -/
theorem timetable_leave (id seq : Nat) (e : Engine) :
    (e.leave id 0 seq).timetable = e.timetable := by
  have hdropped : (e.leave id 0 seq).agenda.alarms = e.agenda.alarms := by
    refine Agenda.alarms_dropTimers (fun job hjob => ?_) e.agenda
    cases job with
    | expire => rfl
    | _ => cases hjob
  have hunlisted := timetable_mapRelay (f := Relay.unlist seq) (fun _ => rfl) e
  exact (congrArg (Timetable.mk _) hdropped).trans hunlisted

theorem timetable_giveUp (id seq : Nat) (ask : Ask) (why : Ending) (next : Continuation)
    (e : Engine) : (e.giveUp id 0 seq ask why next).timetable = e.timetable :=
  (timetable_post rfl _).trans (timetable_withdraw seq e)

/-- Leaving its command, a call goes on. -/
theorem timetable_leave_proceed (howed : e.timetable.relay.owed = []) (id seq : Nat)
    (outcome : Except Failure Json) :
    ((e.leave id 0 seq).proceed id 0 (.answer after) outcome).timetable = e.timetable := by
  have hleft := timetable_leave id seq e
  rw [timetable_proceed (hleft ▸ howed), hleft]

theorem timetable_resumeAsking (howed : e.timetable.relay.owed = []) (id : Nat)
    (cancelled : Bool) (seq : Nat) (ask : Ask) (watch : Watch)
    (outcome : Option (Except Failure Json)) :
    (e.resumeAsking id cancelled 0 seq ask watch outcome (.answer after)).timetable =
      e.timetable := by
  have hleft : ∀ outcome, ((e.leave id 0 seq).proceed id 0 (.answer after) outcome).timetable =
      e.timetable := timetable_leave_proceed howed id seq
  have hwoken : ∀ why, (e.wakeWindowed id 0 seq ask outcome why (.answer after)).timetable =
      e.timetable := by
    intro why
    unfold wakeWindowed
    split
    · exact hleft _
    · exact timetable_giveUp _ _ _ _ _ e
  have hended : ∀ why, (e.endAsking id 0 seq ask why (.answer after)).timetable =
      e.timetable := by
    intro why
    have hlogged := timetable_leave id seq e
    cases why with
    | cancelled => exact hleft _
    | timedOut => exact (timetable_proceed (hlogged ▸ howed) id _).trans hlogged
  unfold resumeAsking
  split
  · split
    · exact hleft _
    · split
      · exact hleft _
      · rfl
  · split
    · exact hwoken _
    · split
      · exact hwoken _
      · exact hwoken _
      · rfl
  · exact hended _

/-- **A call that runs on has nothing to do with alarms.** -/
theorem timetable_resume (h : e.Orderly) (howed : e.timetable.relay.owed = []) (id : Nat) :
    (e.resume id).timetable = e.timetable := by
  unfold resume
  cases hcall : e.call? id with
  | none => rfl
  | some c =>
    have hstaged := (h.regular _ (mem_of_call? hcall)).stage
    simp only []
    split
    · rename_i work hstage
      rw [hstage] at hstaged
      split
      · exact timetable_finish _ _ e
      · cases work with
        | query i q =>
          cases (show i = 0 from hstaged)
          exact timetable_query howed id q
        | check i uri =>
          cases (show i = 0 from hstaged)
          exact timetable_check howed id uri
        | checkAll i =>
          cases (show i = 0 from hstaged)
          exact timetable_checkAll id e
        | handle handler => exact hstaged.elim
    · rename_i i seq ask watch outcome next hstage
      rw [hstage] at hstaged
      obtain ⟨rfl, -, ⟨after, rfl⟩, -⟩ := hstaged
      exact timetable_resumeAsking howed _ _ _ _ _ _
    · split
      · exact timetable_finish _ _ e
      · split
        · exact timetable_finish _ _ e
        · rfl
    · split
      · exact timetable_finish _ _ e
      · split
        · exact timetable_finish _ _ e
        · rfl
    · rename_i handler hstage
      rw [hstage] at hstaged
      exact hstaged.elim

/-! ## The other jobs, and cancelling -/

theorem timetable_passOn (id seq : Nat) (e : Engine) :
    (e.passOn id seq).timetable = e.timetable := by
  unfold passOn
  split
  · split
    · split
      · exact timetable_post rfl _
      · exact timetable_post rfl _
      · rfl
    · rfl
  · rfl

theorem timetable_expire (id seq : Nat) (e : Engine) :
    (e.expire id seq).timetable = e.timetable := by
  unfold expire
  split
  · split
    · exact timetable_post rfl _
    · rfl
  · rfl

theorem timetable_partEnded (whole : Nat) (outcome : Except Failure Unit) (e : Engine) :
    (e.partEnded whole outcome).timetable = e.timetable := by
  unfold partEnded
  split
  · split
    · exact timetable_post rfl _
    · split
      · exact timetable_post rfl _
      · rfl
  · rfl

theorem timetable_checkEnded (outcome : Except Failure Unit) (e : Engine) :
    (e.checkEnded 0 outcome).timetable = e.timetable := by
  unfold checkEnded
  split <;> rfl

theorem timetable_cancelSimple (h : e.Orderly) (id : Nat) :
    (e.cancelSimple id).timetable = e.timetable := by
  unfold cancelSimple
  cases hcall : e.call? id with
  | none => rfl
  | some c =>
    have hstaged := (h.regular _ (mem_of_call? hcall)).stage
    simp only []
    split
    · rename_i hstage
      rw [hstage] at hstaged
      cases hstaged.1
      exact (timetable_post rfl _).trans (timetable_withdraw _ e)
    · exact timetable_post rfl _
    · rename_i hstage
      rw [hstage] at hstaged
      cases hstaged.1
      have hwithdrew := timetable_mapRelay (f := Relay.withdrawWaiter id) (fun _ => rfl) e
      exact (timetable_post rfl _).trans hwithdrew
    · split
      · exact timetable_post rfl _
      · rfl
    · rfl

/-- **Cancelling a call has nothing to do with alarms.** -/
theorem timetable_cancel (h : e.Orderly) (id : Nat) : (e.cancel id).timetable = e.timetable := by
  have hparts : ∀ (parts : List Nat) (e : Engine), e.Orderly →
      (parts.foldl (fun e p => e.cancelSimple p) e).timetable = e.timetable := by
    intro parts
    induction parts with
    | nil => exact fun _ _ => rfl
    | cons p rest ih =>
      intro e he
      have hnext : (e.cancelSimple p).Orderly := he.shifts (shifts_cancelSimple (t := .any) he p)
      exact (ih _ hnext).trans (timetable_cancelSimple he p)
  unfold cancel
  split
  · simp only []
    split
    · rfl
    · exact hparts _ e h
  · exact timetable_cancelSimple h id

end Engine

end LanguageRelay
