import LanguageRelay.Proofs.Engine.Bookkeeping
/-!
# Jobs, in the ledger

A job is for one call. Passing an outcome on and the end of a window wake the
call, if it waits for that (`step_passOn`, `step_expire`). A call that runs on
writes its command, gives it up, or ends (`step_resume`).
-/

namespace LanguageRelay

namespace Engine

variable {link link' : Link} {todo js : List Job} {e : Engine} {ev : Written → Option Event}
variable {id seq : Nat} {c : Call} {name : String} {ask : Ask} {watch : Watch}
variable {outcome : Option (Except Failure Json)} {cancelled : Bool} {job : Job}

/-- What comes for a request when a job is done. -/
def jobEvent (job : Job) (e : Engine) (q : Written) : Option Event :=
  match job with
  | .resume id => if q.call = id ∧ (e.call? id).any Call.awake then some .ranOn else none
  | .expire id seq => if q.call = id ∧ q.seq = seq then some .expired else none
  | _ => none

theorem jobEvent_of_ne (hown : job.call? = some id) {q : Written} (h : q.call ≠ id) :
    jobEvent job e q = none := by
  cases job with
  | resume id' =>
    cases Option.some.inj hown
    exact if_neg fun hand => h hand.1
  | expire id' seq =>
    cases Option.some.inj hown
    exact if_neg fun hand => h hand.1
  | _ => rfl

/-- No job brings an outcome. -/
theorem bind_jobEvent (job : Job) (e : Engine) (q : Written) :
    (jobEvent job e q).bind Event.outcome? = none := by
  unfold jobEvent
  split
  · split <;> rfl
  · split <;> rfl
  · rfl

/-- A job for a call that is not there is missed. -/
theorem step_missed (hcall : e.call? id = none) (hown : job.call? = some id) :
    (e.ledger link (job :: todo)).Step none (jobEvent job e) (e.ledger link todo) :=
  .missed [job] (fun _ => jobEvent_of_ne hown) (not_mem_of_call? hcall) rfl (by simpa using hown)

/-- A job that does nothing to its call. -/
theorem step_spent (hvalid : (e.ledger link (job :: todo)).Valid) (hcall : e.call? id = some c)
    (hown : job.call? = some id)
    (hattended : c.Attended id (todo ++ e.agenda.ready) e.agenda.timers)
    (hfate : ∀ q, q.call = id → c.Of q → c.fate.after q (jobEvent job e q) = c.fate) :
    (e.ledger link (job :: todo)).Step none (jobEvent job e) (e.ledger link todo) := by
  have hstep := Ledger.step_stays [job] [] hvalid (mem_of_call? hcall) rfl (by simpa using hown)
    (by simp) (by rwa [List.append_nil]) (fun _ => jobEvent_of_ne hown) hfate
  rwa [List.append_nil] at hstep

/-! ## Jobs a call can do without -/

variable {jobs : List Job} {timers : List (Timer Job)} {s : Nat}

/-- A call needs an outcome passed on only for its own number, while it waits
within a window or has given its command up. -/
theorem attended_of_passOn
    (h : watch.Attended id s (.passOn id seq :: jobs) timers outcome cancelled)
    (hspent : s ≠ seq ∨ watch = .unbounded ∨
      ∃ signal, watch = .windowed signal ∧ signal ≠ .pending) :
    watch.Attended id s jobs timers outcome cancelled := by
  cases watch with
  | unbounded => simpa [Watch.Attended] using h
  | windowed signal =>
    cases signal with
    | pending =>
      have hs : s ≠ seq := by simpa using hspent
      cases outcome <;> simpa [Watch.Attended, hs] using h
    | raised => simpa [Watch.Attended] using h
    | cancelled => simpa [Watch.Attended] using h
  | ending why =>
    have hs : s ≠ seq := by simpa using hspent
    simpa [Watch.Attended, hs] using h

/-- It needs the end of its window only while it waits within it. -/
theorem attended_of_expire
    (h : watch.Attended id s (.expire id seq :: jobs) timers outcome cancelled)
    (hspent : s ≠ seq ∨ watch ≠ .windowed .pending) :
    watch.Attended id s jobs timers outcome cancelled := by
  cases watch with
  | unbounded => simpa [Watch.Attended] using h
  | windowed signal =>
    cases signal with
    | pending =>
      have hs : s ≠ seq := by simpa using hspent
      cases outcome <;> simpa [Watch.Attended, hs] using h
    | raised => simpa [Watch.Attended] using h
    | cancelled => simpa [Watch.Attended] using h
  | ending why => simpa [Watch.Attended] using h

/-- It needs to run on only when it is awake. -/
theorem attended_of_resume
    (h : watch.Attended id s (.resume id :: jobs) timers outcome cancelled)
    (hasleep : watch.awake outcome cancelled = false) :
    watch.Attended id s jobs timers outcome cancelled := by
  cases watch with
  | unbounded =>
    cases outcome <;> cases cancelled <;> simp [Watch.awake] at hasleep
    simp [Watch.Attended]
  | windowed signal =>
    cases signal with
    | pending => cases outcome <;> simpa [Watch.Attended] using h
    | raised => simp [Watch.awake] at hasleep
    | cancelled => simp [Watch.awake] at hasleep
  | ending why => simp [Watch.awake] at hasleep

/-- A call that has not run needs only to run. -/
theorem fresh_attended {command : String} {arguments : Json} {window : Option Duration}
    (h : (Call.fresh name command arguments window cancelled).Attended id (job :: jobs) timers)
    (hjob : job ≠ .resume id) :
    (Call.fresh name command arguments window cancelled).Attended id jobs timers :=
  (List.mem_cons.mp h).resolve_left hjob.symm

/-! ## Waking a call -/

/-- Passing an outcome on leaves the relay alone. -/
theorem plain_passOn (h : e.Plain link) : (e.passOn id seq).Plain link := by
  unfold passOn
  split
  · split
    · split <;> exact h
    · exact h
  · exact h

/-- So does the end of a window. -/
theorem plain_expire (h : e.Plain link) : (e.expire id seq).Plain link := by
  unfold expire
  split
  · split <;> exact h
  · exact h

/-- **Passing an outcome on is a step.** -/
theorem step_passOn (hvalid : (e.ledger link (.passOn id seq :: todo)).Valid) :
    (e.ledger link (.passOn id seq :: todo)).Step none (jobEvent (.passOn id seq) e)
      ((e.passOn id seq).ledger link todo) := by
  cases hcall : e.call? id with
  | none =>
    have hpass : e.passOn id seq = e := by simp [passOn, hcall]
    rw [hpass]
    exact step_missed hcall rfl
  | some c =>
    have hmem := mem_of_call? hcall
    have hattended := hvalid.attended _ hmem
    rcases call_cases hvalid hcall with ⟨name, command, arguments, window, cancelled, rfl⟩ |
      ⟨name, s, ask, watch, outcome, cancelled, rfl⟩
    · have hpass : e.passOn id seq = e := by simp [passOn, hcall, Call.fresh]
      rw [hpass]
      exact step_spent hvalid hcall rfl (fresh_attended hattended (by simp)) fun _ _ _ => rfl
    · have hspent : (s ≠ seq ∨ watch = .unbounded ∨
          ∃ signal, watch = .windowed signal ∧ signal ≠ .pending) →
          e.passOn id seq = e →
          (e.ledger link (.passOn id seq :: todo)).Step none (jobEvent (.passOn id seq) e)
            ((e.passOn id seq).ledger link todo) := by
        intro hspent hpass
        rw [hpass]
        exact step_spent hvalid hcall rfl (attended_of_passOn hattended hspent) fun _ _ _ => rfl
      by_cases hs : s = seq
      · subst hs
        cases watch with
        | unbounded => exact hspent (.inr (.inl rfl)) (by simp [passOn, hcall, Call.asks])
        | windowed signal =>
          cases signal with
          | pending =>
            have hdone : outcome.isSome := Ledger.answered_asks.mp
              ((hvalid.jobs _ List.mem_cons_self).2 _ hmem rfl)
            have hpass : e.passOn id s = (e.amend id (.asking 0 s ask (.windowed .raised) outcome
                (.answer .raw))).post (.resume id) := by
              simp [passOn, hcall, Call.asks]
            rw [hpass]
            refine step_changes [.passOn id s] (.windowed .raised) outcome cancelled
              ((changes_amend id _ e).post (.resume id)) hvalid hcall rfl (by simp [Job.call?])
              (.refl hvalid.link _) (by simp) (.inl ⟨rfl, rfl⟩) (by simp) ?_
              (fun _ => jobEvent_of_ne rfl) fun _ _ _ _ _ => Watch.fate_passOn hdone
            exact List.mem_append_right _ (List.mem_singleton_self _)
          | raised =>
            exact hspent (.inr (.inr ⟨_, rfl, by simp⟩)) (by simp [passOn, hcall, Call.asks])
          | cancelled =>
            exact hspent (.inr (.inr ⟨_, rfl, by simp⟩)) (by simp [passOn, hcall, Call.asks])
        | ending why =>
          have hpass : e.passOn id s = e.post (.resume id) := by simp [passOn, hcall, Call.asks]
          rw [hpass, ledger_post]
          exact Ledger.step_stays [.passOn id s] [.resume id] hvalid hmem rfl (by simp [Job.call?])
            (by simp) (.inr (List.mem_append_right _ (List.mem_singleton_self _)))
            (fun _ => jobEvent_of_ne rfl) fun _ _ _ => rfl
      · exact hspent (.inl hs) (by simp [passOn, hcall, Call.asks, hs])

/-- **The end of a window is a step.** -/
theorem step_expire (hvalid : (e.ledger link (.expire id seq :: todo)).Valid) :
    (e.ledger link (.expire id seq :: todo)).Step none (jobEvent (.expire id seq) e)
      ((e.expire id seq).ledger link todo) := by
  cases hcall : e.call? id with
  | none =>
    have hexpire : e.expire id seq = e := by simp [expire, hcall]
    rw [hexpire]
    exact step_missed hcall rfl
  | some c =>
    have hmem := mem_of_call? hcall
    have hattended := hvalid.attended _ hmem
    rcases call_cases hvalid hcall with ⟨name, command, arguments, window, cancelled, rfl⟩ |
      ⟨name, s, ask, watch, outcome, cancelled, rfl⟩
    · have hexpire : e.expire id seq = e := by simp [expire, hcall, Call.fresh]
      rw [hexpire]
      refine step_spent hvalid hcall rfl (fresh_attended hattended (by simp)) fun q _ hof => ?_
      cases hof
    · by_cases hwaits : s = seq ∧ watch = .windowed .pending
      · obtain ⟨rfl, rfl⟩ := hwaits
        have hexpire : e.expire id s = (e.amend id
            (.asking 0 s ask (.windowed .raised) outcome (.answer .raw))).post (.resume id) := by
          simp [expire, hcall, Call.asks]
        rw [hexpire]
        refine step_changes [.expire id s] (.windowed .raised) outcome cancelled
          ((changes_amend id _ e).post (.resume id)) hvalid hcall rfl (by simp [Job.call?])
          (.refl hvalid.link _) (by simp) (.inl ⟨rfl, rfl⟩) (by simp) ?_
          (fun _ => jobEvent_of_ne rfl) fun q hid hseq _ hwindow => ?_
        · exact List.mem_append_right _ (List.mem_singleton_self _)
        · have hevent : jobEvent (.expire id s) e q = some .expired := if_pos ⟨hid, hseq⟩
          rw [hevent]
          exact Watch.fate_expire fun hnone => by cases hwindow.mpr hnone
      · have hspent : s ≠ seq ∨ watch ≠ .windowed .pending := not_and_or.mp hwaits
        have hexpire : e.expire id seq = e := by
          cases watch with
          | unbounded => simp [expire, hcall, Call.asks]
          | windowed signal =>
            cases signal with
            | pending =>
              have hs : s ≠ seq := hspent.resolve_right (by simp)
              simp [expire, hcall, Call.asks, hs]
            | raised => simp [expire, hcall, Call.asks]
            | cancelled => simp [expire, hcall, Call.asks]
          | ending why => simp [expire, hcall, Call.asks]
        rw [hexpire]
        refine step_spent hvalid hcall rfl (attended_of_expire hattended hspent) fun q hid hof => ?_
        obtain ⟨-, hseq, -, hwindow⟩ := Ledger.of_asks hof
        by_cases hs : s = seq
        · have hevent : jobEvent (.expire id seq) e q = some .expired := if_pos ⟨hid, hseq.trans hs⟩
          rw [hevent]
          exact Watch.fate_expire_other hwindow (hspent.resolve_left (by simpa using hs))
        · have hevent : jobEvent (.expire id seq) e q = none :=
            if_neg fun hand => hs (hseq.symm.trans hand.2)
          rw [hevent]
          rfl

/-! ## Ending a call -/

/-- Nothing changes but the relays, the record and timers of one call. -/
structure Leaves (id : Nat) (e e' : Engine) : Prop where
  setup : e'.setup = e.setup
  calls : e'.calls = e.calls
  lastCall : e'.lastCall = e.lastCall
  now : e'.agenda.now = e.agenda.now
  ready : e'.agenda.ready = e.agenda.ready
  ended : e'.ended = e.ended
  timers : e'.agenda.timers.Sublist e.agenda.timers
  kept : ∀ t ∈ e.agenda.timers, t.job.call? ≠ some id → t ∈ e'.agenda.timers

theorem leaves_refl (id : Nat) (e : Engine) : Leaves id e e :=
  ⟨rfl, rfl, rfl, rfl, rfl, rfl, .refl _, fun _ ht _ => ht⟩

/-- A call that has done with its command takes its timer back. -/
theorem leaves_leave (id seq : Nat) (e : Engine) : Leaves id e (e.leave id 0 seq) := by
  refine ⟨rfl, rfl, rfl, rfl, rfl, rfl, List.filter_sublist, fun t ht hother => ?_⟩
  refine List.mem_filter.mpr ⟨ht, ?_⟩
  obtain ⟨due, job⟩ := t
  cases job with
  | expire call s =>
    have hne : call ≠ id := fun heq => hother (by rw [heq]; rfl)
    simp [hne]
  | _ => rfl

/-- The client is told how its call ended. -/
theorem finish_eq (hcall : e.call? id = some c) (hrole : c.role = .client name)
    (o : Except Failure Json) :
    e.finish id (o.map .raw) =
      { e with
        calls := Table.erase id e.calls
        ended := e.ended ++ [(name, o.map .raw)] } := by
  obtain ⟨role, stage, cancelled⟩ := c
  cases hrole
  cases o with
  | error f => simp [finish, hcall, Except.map, report]
  | ok body => simp [finish, hcall, Except.map, report, keep]

/-- **A call that ends.** -/
theorem step_finish {e' : Engine} (hcall : e.call? id = some c) (hrole : c.role = .client name)
    (hleaves : Leaves id e e') (hplain : e'.Plain link') (htouched : link.Touched c.seq? link')
    (o : Except Failure Json)
    (hfate : ∀ q, q.call = id → c.Of q →
      c.fate.after q (jobEvent (.resume id) e q) = .gone o) :
    (e'.finish id (o.map .raw)).Plain link' ∧
      (e.ledger link (.resume id :: todo)).Step none (jobEvent (.resume id) e)
        ((e'.finish id (o.map .raw)).ledger link' todo) := by
  have hcall' : e'.call? id = some c := by
    rw [call?, hleaves.calls]
    exact hcall
  rw [finish_eq hcall' hrole o]
  refine ⟨hplain, ?_⟩
  have hname : c.name = name := by simp [Call.name, hrole]
  have hstep := Ledger.Step.ended (l := e.ledger link (.resume id :: todo))
    (fun _ => jobEvent_of_ne rfl)
    ⟨mem_of_call? hcall, (List.singleton_append).symm, by simp [Job.call?], htouched⟩ hleaves.timers
    hleaves.kept fun q hid hof => ⟨o, rfl, hfate q hid hof⟩
  rw [hname] at hstep
  simpa [ledger, hleaves.setup, hleaves.calls, hleaves.lastCall, hleaves.now, hleaves.ready,
    hleaves.ended] using hstep

/-! ## Running on with a command -/

theorem proceed_raw (o : Except Failure Json) :
    e.proceed id 0 (.answer .raw) o = e.finish id (o.map .raw) := by
  cases o <;> rfl

/-- A call that is not awake does nothing. -/
theorem resume_of_asleep
    (hcall : e.call? id = some (.asks name seq ask watch outcome cancelled))
    (hasleep : watch.awake outcome cancelled = false) : e.resume id = e := by
  cases watch with
  | unbounded =>
    cases outcome <;> cases cancelled <;> simp [Watch.awake] at hasleep
    simp [resume, hcall, Call.asks, resumeAsking]
  | windowed signal =>
    cases signal <;> cases cancelled <;> simp [Watch.awake] at hasleep
    simp [resume, hcall, Call.asks, resumeAsking]
  | ending why => simp [Watch.awake] at hasleep

/-- A call that has its outcome ends with it. -/
theorem resume_of_decided
    (hcall : e.call? id = some (.asks name seq ask watch outcome cancelled))
    (hawake : watch.awake outcome cancelled = true) {o : Except Failure Json}
    (hfate : watch.fate outcome cancelled = .decided o) :
    e.resume id = (e.leave id 0 seq).finish id (o.map .raw) := by
  cases watch with
  | unbounded =>
    cases outcome <;> cases cancelled <;> simp [Watch.awake, Watch.fate] at hawake hfate <;>
      simp [resume, hcall, Call.asks, resumeAsking, proceed_raw, hfate]
  | windowed signal =>
    cases signal <;> cases outcome <;> cases cancelled <;>
      simp [Watch.awake, Watch.fate] at hawake hfate <;>
      simp [resume, hcall, Call.asks, resumeAsking, wakeWindowed, proceed_raw, hfate]
  | ending why => cases hfate

/-- A call that is to give its command up does so. -/
theorem resume_of_leaving
    (hcall : e.call? id = some (.asks name seq ask watch outcome cancelled)) {why : Ending}
    (hfate : watch.fate outcome cancelled = .leaving why) :
    e.resume id = e.giveUp id 0 seq ask why (.answer .raw) ∧ watch ≠ .unbounded := by
  cases watch with
  | unbounded => cases outcome <;> cases cancelled <;> cases hfate
  | windowed signal =>
    cases signal <;> cases outcome <;> cases cancelled <;> cases hfate <;>
      simp [resume, hcall, Call.asks, resumeAsking, wakeWindowed]
  | ending why => cases hfate

/-- What is logged of a call whose window is over. -/
def logLate (seq : Nat) (ask : Ask) (why : Ending) (e : Engine) : Engine :=
  match why with
  | .cancelled => e
  | .timedOut => e.log 0 .warning (lateText ask seq)

/-- A call that gave its command up ends. -/
theorem resume_of_withdrawn
    (hcall : e.call? id = some (.asks name seq ask watch outcome cancelled)) {why : Ending}
    (hfate : watch.fate outcome cancelled = .withdrawn why) :
    e.resume id = ((e.leave id 0 seq).logLate seq ask why).finish id
      ((Written.ending ⟨id, name, seq, ask⟩ why).map .raw) := by
  cases watch with
  | unbounded => cases outcome <;> cases cancelled <;> cases hfate
  | windowed signal => cases signal <;> cases outcome <;> cases cancelled <;> cases hfate
  | ending why' =>
    cases hfate
    cases cancelled <;> cases why' <;>
      simp [resume, hcall, Call.asks, resumeAsking, endAsking, proceed_raw, logLate, Written.ending]

theorem jobEvent_resume {q : Written} (hcall : e.call? id = some c) (hid : q.call = id) :
    jobEvent (.resume id) e q = if c.awake then some .ranOn else none := by
  simp [jobEvent, hid, hcall]

/-- **Running on with a command is a step.** -/
theorem step_resume_asks (hplain : e.Plain link)
    (hvalid : (e.ledger link (.resume id :: todo)).Valid)
    (hcall : e.call? id = some (.asks name seq ask watch outcome cancelled)) :
    ∃ link', (e.resume id).Plain link' ∧
      (e.ledger link (.resume id :: todo)).Step none (jobEvent (.resume id) e)
        ((e.resume id).ledger link' todo) := by
  have hattended := hvalid.attended _ (mem_of_call? hcall)
  have hunlist := Link.touched_unlist hvalid.link seq
  cases hawake : watch.awake outcome cancelled with
  | false =>
    rw [resume_of_asleep hcall hawake]
    refine ⟨link, hplain, step_spent hvalid hcall rfl (attended_of_resume hattended hawake)
      fun q hid _ => ?_⟩
    rw [jobEvent_resume hcall hid, if_neg (by simpa [Call.awake, Call.asks] using hawake)]
    rfl
  | true =>
    have hevent : ∀ q, q.call = id → jobEvent (.resume id) e q = some .ranOn := fun q hid => by
      rw [jobEvent_resume hcall hid, if_pos (by simpa [Call.awake, Call.asks] using hawake)]
    cases hfate : watch.fate outcome cancelled with
    | waiting => exact absurd hfate (Watch.fate_ne_waiting hawake)
    | gone o => exact absurd hfate (Watch.fate_ne_gone o)
    | decided o =>
      rw [resume_of_decided hcall hawake hfate]
      refine ⟨_, step_finish hcall rfl (leaves_leave id seq e) (plain_unlist hplain seq) hunlist o
        fun q hid _ => ?_⟩
      rw [hevent q hid]
      change (watch.fate outcome cancelled).next q .ranOn = .gone o
      rw [hfate]
      rfl
    | leaving why =>
      obtain ⟨hresume, hwatch⟩ := resume_of_leaving hcall hfate
      rw [hresume]
      refine ⟨_, plain_withdraw hplain seq, step_changes [.resume id] (.ending why)
        (some (.error .cancelled)) false
        ((changes_await id _ _).post (.passOn id seq)).of_mapRelay hvalid hcall rfl
        (by simp [Job.call?]) (Link.touched_withdraw hvalid.link seq) (by simp [hwatch]) (.inr rfl)
        (by simp) ?_ (fun _ => jobEvent_of_ne rfl) fun q hid _ _ _ => ?_⟩
      · exact .inl (List.mem_append_right _ (List.mem_singleton_self _))
      · rw [hevent q hid, hfate]
        rfl
    | withdrawn why =>
      rw [resume_of_withdrawn hcall hfate]
      have hleaves : Leaves id e ((e.leave id 0 seq).logLate seq ask why) := by
        have hleave := leaves_leave id seq e
        cases why with
        | cancelled => exact hleave
        | timedOut => exact { hleave with }
      have hplain' : ((e.leave id 0 seq).logLate seq ask why).Plain
          { link with pending := link.pending.filter fun p => p.seq ≠ seq } := by
        cases why <;> exact plain_unlist hplain seq
      refine ⟨_, step_finish hcall rfl hleaves hplain' hunlist _ fun q hid hof => ?_⟩
      obtain ⟨-, hseq, hask, -⟩ := Ledger.of_asks hof
      rw [hevent q hid]
      change (watch.fate outcome cancelled).next q .ranOn = _
      rw [hfate]
      cases why <;> simp [Fate.next, Written.ending, hseq, hask]

/-! ## Running for the first time -/

/-- After the closing, a call that runs ends as closed. -/
theorem ask_of_closed (hplain : e.Plain link) (hsound : link.Sound) {cause : Closure}
    (hclosed : link.closed = some cause) (ask : Ask) (after : After) :
    e.ask id 0 ask (.answer after) =
      (e.setRelay 0 (.upon e.setup { link with last := link.last + 1 })).finish id
        (.error (.closed cause)) := by
  unfold Engine.ask operate
  rw [hplain.relay, Relay.ask_upon_of_refused (Link.refusal?_of_closed hclosed) hsound.numbered]
  rfl

/-- How a call waits for what its command brings, once that has been written. -/
def waitFor (id seq : Nat) (ask : Ask) (next : Continuation) (e : Engine) : Engine :=
  match ask.window with
  | none => e.await id (.asking 0 seq ask .unbounded none next)
  | some window =>
    if window.nanos ≤ 0 then
      ((e.mapRelay 0 (Relay.withdraw seq)).await id
        (.asking 0 seq ask (.ending .timedOut) (some (.error .cancelled)) next)).post
          (.passOn id seq)
    else
      { e with agenda := e.agenda.setTimer window.nanos (.expire id seq) }.await id
        (.asking 0 seq ask (.windowed .pending) none next)

/-- A call whose command has been written waits. -/
theorem ask_of_written (h : (e.operate 0 (Relay.ask ask.command ask.arguments)).2 = .ok seq)
    (id : Nat) (next : Continuation) :
    e.ask id 0 ask next =
      (e.operate 0 (Relay.ask ask.command ask.arguments)).1.waitFor id seq ask next := by
  unfold Engine.ask
  cases hoperate : e.operate 0 (Relay.ask ask.command ask.arguments) with
  | mk e' result =>
    obtain rfl : result = .ok seq := by simpa only [hoperate] using h
    rfl

/-- Before, it writes its command and waits. -/
theorem ask_of_open (id : Nat) (hplain : e.Plain link) (hsound : link.Sound)
    (hopen : link.closed = none) (ask : Ask) (next : Continuation) :
    ∃ e', e'.Plain
        { link with
          last := link.last + 1
          pending := link.pending ++ [⟨link.last + 1, ask.command, false⟩] } ∧
      Leaves id e e' ∧ e'.agenda = e.agenda ∧
      e'.record = e.record ++ [(0, .sent ⟨link.last + 1, ask.command, ask.arguments⟩)] ∧
      e.ask id 0 ask next = e'.waitFor id (link.last + 1) ask next := by
  have hrelays : e.relays = [.upon e.setup link] := hplain
  have htaken : link.refusal? = none := (Link.refusal?_eq_closed hsound.unlimited).trans hopen
  have hwritten : (e.operate 0 (Relay.ask ask.command ask.arguments)).2 = .ok (link.last + 1) := by
    simp only [operate, hplain.relay, Relay.ask_upon_of_taken htaken hsound.numbered]
  refine ⟨(e.operate 0 (Relay.ask ask.command ask.arguments)).1, ?_, ?_, ?_, ?_,
    ask_of_written hwritten id next⟩
  all_goals
    unfold operate
    rw [hplain.relay, Relay.ask_upon_of_taken htaken hsound.numbered]
  · simp [Plain, setRelay, hrelays, deliver, Relay.upon, Relay.new]
  · exact ⟨rfl, rfl, rfl, rfl, rfl, rfl, .refl _, fun _ ht _ => ht⟩
  · rfl
  · rfl

/-- The command of a request: it has the window the request was given, else
the one set up. -/
def askOf (setup : Setup) (command : String) (arguments : Json) (window : Option Duration) : Ask :=
  ⟨command, arguments, window.or setup.window, .raw⟩

/-- A call that runs for the first time asks. -/
theorem resume_of_fresh (hplain : e.Plain link) {command : String} {arguments : Json}
    {window : Option Duration}
    (hcall : e.call? id = some (.fresh name command arguments window false)) :
    e.resume id = e.ask id 0 (askOf e.setup command arguments window) (.answer .raw) := by
  simp [resume, hcall, Call.fresh, begin, query, Query.first, hplain.relay, askOf, Relay.upon,
    Relay.new]

/-- **A call has written its command**, and its window runs from now on. -/
structure Writes (link link' : Link) (todo : List Job) (id : Nat) (name : String) (ask : Ask)
    (watch : Watch) (outcome : Option (Except Failure Json)) (js : List Job)
    (set : List (Timer Job)) (e e' : Engine) : Prop where
  plain : e'.Plain link'
  ledger : e'.ledger link' todo =
    { e.ledger link todo with
      link := link'
      calls := Table.update id
        (fun _ => .asks name (link.last + 1) ask watch outcome false) e.calls
      jobs := todo ++ e.agenda.ready ++ js
      timers := e.agenda.timers ++ set }
  record : e'.record = e.record ++ [(0, .sent ⟨link.last + 1, ask.command, ask.arguments⟩)]
  touched : link.Touched (some (link.last + 1)) link'
  last : link.last < link'.last
  listed : outcome = none → ⟨link.last + 1, ask.command, false⟩ ∈ link'.pending
  watches : watch = .unbounded ↔ ask.window = none
  posted : ∀ job ∈ js, job = .passOn id (link.last + 1) ∧ outcome.isSome
  timed : ∀ t ∈ set, t.job = .expire id (link.last + 1) ∧
    ∃ window, ask.window = some window ∧ t.due = e.agenda.now + window.nanos
  attended : ∀ jobs timers,
    watch.Attended id (link.last + 1) (jobs ++ js) (timers ++ set) outcome false
  fate : watch.fate outcome false = Fate.start ask

/-- A call that runs for the first time writes its command. -/
theorem writes_resume (hplain : e.Plain link) (hsound : link.Sound) {command : String}
    {arguments : Json} {window : Option Duration}
    (hcall : e.call? id = some (.fresh name command arguments window false))
    (hopen : link.closed = none) (todo : List Job) :
    ∃ link' watch outcome js set,
      Writes link link' todo id name (askOf e.setup command arguments window) watch outcome js set e
        (e.resume id) := by
  obtain ⟨e', hplain', hleaves, hagenda, hrecord, hask⟩ :=
    ask_of_open id hplain hsound hopen (askOf e.setup command arguments window) (.answer .raw)
  have hexpect := Link.touched_expect hsound hopen (askOf e.setup command arguments window).command
  rw [resume_of_fresh hplain hcall, hask]
  generalize askOf e.setup command arguments window = a at hplain' hrecord hexpect ⊢
  have hupdate : ∀ stage, Table.update id (fun c => { c with stage, cancelled := false }) e.calls =
      Table.update id (fun _ => ⟨.client name, stage, false⟩) e.calls :=
    fun _ => update_of_call? hcall
  have hlisted : (⟨link.last + 1, a.command, false⟩ : Pending) ∈
      link.pending ++ [⟨link.last + 1, a.command, false⟩] :=
    List.mem_append_right _ (List.mem_singleton_self _)
  cases hwindow : a.window with
  | none =>
    simp only [waitFor, hwindow]
    refine ⟨_, .unbounded, none, [], [], hplain', ?_, hrecord, hexpect, Nat.lt_succ_self _,
      fun _ => hlisted, by simp [hwindow], by simp, by simp, by simp [Watch.Attended],
      by simp [Watch.fate, Fate.start, hwindow]⟩
    simp [Engine.ledger, await, hupdate, Call.asks, hleaves.setup, hleaves.calls,
      hleaves.lastCall, hleaves.ended, hagenda]
  | some w =>
    by_cases hover : w.nanos ≤ 0
    · simp only [waitFor, hwindow, if_pos hover]
      refine ⟨_, .ending .timedOut, some (.error .cancelled), [.passOn id (link.last + 1)], [],
        plain_withdraw hplain' _, ?_, hrecord,
        hexpect.trans (Link.touched_withdraw hexpect.sound _), Nat.lt_succ_self _, by simp,
        by simp [hwindow], by simp, by simp, by simp [Watch.Attended],
        by simp [Watch.fate, Fate.start, hwindow, hover]⟩
      simp [Engine.ledger, await, post, Agenda.post, mapRelay, setRelay, hupdate, Call.asks,
        hleaves.setup, hleaves.calls, hleaves.lastCall, hleaves.ended, hagenda]
    · simp only [waitFor, hwindow, if_neg hover]
      refine ⟨_, .windowed .pending, none, [],
        [⟨e.agenda.now + w.nanos, .expire id (link.last + 1)⟩], hplain', ?_, hrecord, hexpect,
        Nat.lt_succ_self _, fun _ => hlisted, by simp [hwindow], by simp, by simp [hwindow],
        by simp [Watch.Attended], by simp [Watch.fate, Fate.start, hwindow, hover]⟩
      simp [Engine.ledger, await, Agenda.setTimer, hupdate, Call.asks, hleaves.setup,
        hleaves.calls, hleaves.lastCall, hleaves.ended, hagenda]

/-- **Writing a command is a step.** -/
theorem Writes.step {e' : Engine} {set : List (Timer Job)}
    (h : Writes link link' todo id name ask watch outcome js set e e') {command : String}
    {arguments : Json} {window : Option Duration}
    (hcall : e.call? id = some (.fresh name command arguments window cancelled)) :
    (e.ledger link (.resume id :: todo)).Step none (jobEvent (.resume id) e)
      (e'.ledger link' todo) := by
  rw [h.ledger]
  exact Ledger.step_writes [.resume id] js set (mem_of_call? hcall) rfl (by simp [Job.call?])
    h.touched h.last h.watches h.listed h.posted (fun t ht => (h.timed t ht).1) (h.attended _ _)
    fun _ => jobEvent_of_ne rfl

/-- After the closing, a call that runs for the first time ends. -/
theorem step_resume_closed (hplain : e.Plain link)
    (hvalid : (e.ledger link (.resume id :: todo)).Valid) {cause : Closure}
    (hclosed : link.closed = some cause) {command : String} {arguments : Json}
    {window : Option Duration}
    (hcall : e.call? id = some (.fresh name command arguments window false)) :
    (e.resume id).Plain { link with last := link.last + 1 } ∧
      (e.ledger link (.resume id :: todo)).Step none (jobEvent (.resume id) e)
        ((e.resume id).ledger { link with last := link.last + 1 } todo) := by
  have hresume : e.resume id =
      (e.setRelay 0 (.upon e.setup { link with last := link.last + 1 })).finish id
        ((.error (.closed cause) : Except Failure Json).map .raw) :=
    (resume_of_fresh hplain hcall).trans (ask_of_closed hplain hvalid.link hclosed _ _)
  have hplain' : (e.setRelay 0 (.upon e.setup { link with last := link.last + 1 })).Plain
      { link with last := link.last + 1 } := by
    have hrelays : e.relays = [.upon e.setup link] := hplain
    simp [Plain, setRelay, hrelays]
  have hleaves : Leaves id e (e.setRelay 0 (.upon e.setup { link with last := link.last + 1 })) :=
    ⟨rfl, rfl, rfl, rfl, rfl, rfl, .refl _, fun _ ht _ => ht⟩
  have htouched : link.Touched none { link with last := link.last + 1 } :=
    Link.touched_take hvalid.link none
  rw [hresume]
  exact step_finish hcall rfl hleaves hplain' htouched _ fun q _ hof => by cases hof

/-- **Running for the first time is a step.** -/
theorem step_resume_fresh (hplain : e.Plain link)
    (hvalid : (e.ledger link (.resume id :: todo)).Valid) {command : String} {arguments : Json}
    {window : Option Duration}
    (hcall : e.call? id = some (.fresh name command arguments window cancelled)) :
    ∃ link', (e.resume id).Plain link' ∧
      (e.ledger link (.resume id :: todo)).Step none (jobEvent (.resume id) e)
        ((e.resume id).ledger link' todo) := by
  cases cancelled with
  | true =>
    have hresume : e.resume id =
        e.finish id ((.error .cancelled : Except Failure Json).map .raw) := by
      simp [resume, hcall, Call.fresh, Except.map]
    rw [hresume]
    exact ⟨link, step_finish hcall rfl (leaves_refl id e) hplain (.refl hvalid.link _) _
      fun q _ hof => by cases hof⟩
  | false =>
    cases hclosed : link.closed with
    | none =>
      obtain ⟨link', watch, outcome, js, set, hwrites⟩ :=
        writes_resume hplain hvalid.link hcall hclosed todo
      exact ⟨link', hwrites.plain, hwrites.step hcall⟩
    | some cause => exact ⟨_, step_resume_closed hplain hvalid hclosed hcall⟩

/-- **Every job is a step.** -/
theorem step_dispatch (hplain : e.Plain link) (hvalid : (e.ledger link (job :: todo)).Valid) :
    ∃ link', (e.dispatch job).Plain link' ∧
      (e.ledger link (job :: todo)).Step none (jobEvent job e)
        ((e.dispatch job).ledger link' todo) := by
  cases job with
  | resume id =>
    cases hcall : e.call? id with
    | none =>
      have hresume : e.dispatch (.resume id) = e := by simp [dispatch, resume, hcall]
      rw [hresume]
      exact ⟨link, hplain, step_missed hcall rfl⟩
    | some c =>
      rcases call_cases hvalid hcall with ⟨name, command, arguments, window, cancelled, rfl⟩ |
        ⟨name, seq, ask, watch, outcome, cancelled, rfl⟩
      · exact step_resume_fresh hplain hvalid hcall
      · exact step_resume_asks hplain hvalid hcall
  | passOn id seq =>
    exact ⟨link, plain_passOn hplain, step_passOn hvalid⟩
  | expire id seq =>
    exact ⟨link, plain_expire hplain, step_expire hvalid⟩
  | fire i uri timer => exact absurd (hvalid.jobs _ List.mem_cons_self) id
  | partEnded whole outcome => exact absurd (hvalid.jobs _ List.mem_cons_self) id
  | checkEnded i outcome => exact absurd (hvalid.jobs _ List.mem_cons_self) id

end Engine

end LanguageRelay
