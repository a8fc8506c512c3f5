import LanguageRelay.Proofs.Editing.Shifts
import LanguageRelay.Proofs.Engine.Running
/-!
# Jobs are chains of shifts

What the engine does of its own accord is followed here function by function:
each comes to a chain of shifts, as long as the engine is orderly
(`shifts_dispatch`, `shifts_cancel`).
-/

namespace LanguageRelay

namespace Relay

variable {r : Relay} {name : String} {arguments : Json}

/-- The next number is not listed. -/
theorem nextSeq_free (h : ∀ p ∈ r.link.pending, p.seq ≤ r.link.last) :
    ¬ r.link.pending.any fun p => p.seq = r.nextSeq := by
  simp only [List.any_eq_true, decide_eq_true_eq, not_exists, not_and]
  intro p hp heq
  have hle := h p hp
  simp only [nextSeq] at heq
  omega

/-- A command that is not refused is written under the next number, and listed. -/
theorem ask_of_taken (h : ∀ p ∈ r.link.pending, p.seq ≤ r.link.last)
    (htaken : r.link.refusal? = none) (name : String) (arguments : Json) : r.ask name arguments =
      ((r.takeSeq.expect r.nextSeq name).emit (.sent ⟨(r.nextSeq : Nat), name, arguments⟩),
        .ok r.nextSeq) := by
  have hfree := nextSeq_free h
  unfold ask
  simp only [htaken]
  exact if_neg hfree

/-- One that is refused only uses up a number. -/
theorem ask_of_refused {cause : Closure} (h : ∀ p ∈ r.link.pending, p.seq ≤ r.link.last)
    (hrefused : r.link.refusal? = some cause) (name : String) (arguments : Json) :
    r.ask name arguments = (r.takeSeq, .error (.closed cause)) := by
  have hfree := nextSeq_free h
  unfold ask
  simp only [hrefused]
  exact if_neg hfree

/-- A call waits for diagnostics over an open connection alone. -/
theorem up_of_requestCheck (uri : String) (waiter : Nat) (h : r.Sound)
    (hwaits : (r.requestCheck uri waiter).2 = .ok true) : r.link.closed = none := by
  have hasking := asking_requestCheck uri waiter r
  generalize r.requestCheck uri waiter = asked at hwaits hasking
  obtain ⟨r', result⟩ := asked
  -- nothing is awaited over a closed connection, and a check cannot be started there
  cases hasking with
  | joined hcheck hawaited => exact h.up hcheck hawaited
  | begun _ _ _ htaken => exact Link.closed_of_taken htaken
  | _ => simp at hwaits

end Relay

namespace Engine

variable {t : Terms} {e e' : Engine} {id seq : Nat} {c : Call} {a : Ask}

/-! ## Single shifts -/

theorem Orderly.shifts (h : e.Orderly) (hshifts : Shifts t e e') : e'.Orderly :=
  hshifts.keep (fun _ _ => orderly_shift) h

/-- A job is put in line. -/
theorem shift_post (h : e.Orderly) (job : Job) (hjob : job.Local) : Shift t e (e.post job) := by
  refine .timed (e.agenda.post job) (fun j hj => ?_) h.timers
  rcases List.mem_append.mp hj with hj | hj
  · exact h.ready j hj
  · rwa [List.mem_singleton.mp hj]

/-- A call that is there waits anew. -/
theorem await_of_call (hcall : e.call? id = some c) (stage : Stage) :
    e.await id stage =
      { e with calls := Table.update id (fun _ => ⟨c.role, stage, false⟩) e.calls } := by
  unfold await
  rw [update_of_call? hcall]

/-- What a call that is there waits for has moved on. -/
theorem amend_of_call (hcall : e.call? id = some c) (stage : Stage) :
    e.amend id stage =
      { e with calls := Table.update id (fun _ => { c with stage }) e.calls } := by
  unfold amend
  rw [update_of_call? hcall]

/-- A call heeds what is taken in. -/
theorem call?_heed (happart : Apart e.calls) (hcall : e.call? id = some c) (r : Relay) :
    (e.takeIn r).call? id = some (r.outbox.foldl (Call.heed id) c) := by
  have hcalls : (e.takeIn r).calls = _ := (heeded_takeIn happart r).calls
  have hkeys : (Table.keys (e.takeIn r).calls).Nodup := by
    rw [hcalls]
    exact (happart.map fun x => by simp).single
  refine (Table.get?_eq_some_iff hkeys).mpr ?_
  rw [hcalls]
  exact List.mem_map_of_mem (mem_of_call? hcall)

/-- A call that does not wait is not told of what is taken in. -/
theorem call?_takeIn (happart : Apart e.calls) (hcall : e.call? id = some c) (hfree : ¬ c.Waits)
    (r : Relay) : (e.takeIn r).call? id = some c := by
  rw [call?_heed happart hcall, foldl_heed_of_not_waits hfree]

/-! ## Writing a command -/

/-- A relay that did nothing to the world outside is set. -/
theorem takeIn_of_collected {r : Relay} (h : r.outbox = []) : e.takeIn r = e.setRelay 0 r := by
  unfold takeIn
  rw [h]
  exact congrArg (fun r => e.setRelay 0 r) (by rw [← h])

/-- The engine with a command written by a call that is to wait for it. -/
def wrote (id : Nat) (c : Call) (a : Ask) (watch : Watch) (outcome : Option (Except Failure Json))
    (e : Engine) : Engine :=
  { e with
    relays := [{ e.relay 0 with
      link := { (e.relay 0).link with
        last := (e.relay 0).nextSeq
        pending := (e.relay 0).link.pending ++
          [⟨(e.relay 0).nextSeq, a.command, outcome.isSome⟩] } }]
    calls := Table.update id (fun _ =>
      ⟨c.role, .asking 0 (e.relay 0).nextSeq a watch outcome (.answer a.after), false⟩) e.calls
    record := e.record ++ [(0, .sent ⟨(e.relay 0).nextSeq, a.command, a.arguments⟩)] }

/-- A job for a call is about no relay. -/
theorem local_of_call? {job : Job} (h : job.call? = some id) : job.Local := by
  cases job <;> first | exact trivial | cases h

/-- A call that waits has written its command, or withdrawn it at once; then
its timer is set, or the outcome passed on. -/
theorem waitFor_eq (hrelays : e.relays = [e.relay 0]) (hcollected : (e.relay 0).outbox = [])
    (hnumbered : ∀ p ∈ (e.relay 0).link.pending, p.seq ≤ (e.relay 0).link.last)
    (hcall : e.call? id = some c) (a : Ask) :
    ∃ watch outcome js ts,
      (e.takeIn (((e.relay 0).takeSeq.expect (e.relay 0).nextSeq a.command).emit
        (.sent ⟨((e.relay 0).nextSeq : Nat), a.command, a.arguments⟩))).waitFor id
          (e.relay 0).nextSeq a (.answer a.after) =
        { e.wrote id c a watch outcome with
          agenda := { e.agenda with
            ready := e.agenda.ready ++ js
            timers := e.agenda.timers ++ ts } } ∧
      (outcome = none ∨ outcome = some (.error .cancelled)) ∧
      (∀ why, watch = .ending why → outcome ≠ none) ∧
      (∀ job ∈ js, job.call? = some id) ∧ (∀ timer ∈ ts, timer.job.call? = some id) ∧
      watch.Attended id (e.relay 0).nextSeq js ts outcome false := by
  have hwritten : e.takeIn (((e.relay 0).takeSeq.expect (e.relay 0).nextSeq a.command).emit
      (.sent ⟨((e.relay 0).nextSeq : Nat), a.command, a.arguments⟩)) =
      { e with
        relays := [{ e.relay 0 with
          link := { (e.relay 0).link with
            last := (e.relay 0).nextSeq
            pending := (e.relay 0).link.pending ++ [⟨(e.relay 0).nextSeq, a.command, false⟩] } }]
        record := e.record ++ [(0, .sent ⟨(e.relay 0).nextSeq, a.command, a.arguments⟩)] } := by
    generalize e.relay 0 = r at *
    obtain ⟨setup, link, sessions, checks, uriByFile, abandoned, scheduled, lastTimer, outbox⟩ := r
    simp only at hcollected
    subst hcollected
    simp [takeIn, Relay.emit, Relay.expect, Relay.takeSeq, Relay.nextSeq, deliver, setRelay, hrelays]
  have hupdate : ∀ stage, Table.update id (fun c => { c with stage, cancelled := false }) e.calls =
      Table.update id (fun _ => ⟨c.role, stage, false⟩) e.calls := fun _ => update_of_call? hcall
  rw [hwritten]
  unfold waitFor
  cases a.window with
  | none =>
    exact ⟨.unbounded, none, [], [], by simp [await, wrote, hupdate], .inl rfl, by simp, by simp,
      by simp, by simp [Watch.Attended]⟩
  | some window =>
    simp only []
    split
    · refine ⟨.ending .timedOut, some (.error .cancelled), [.passOn id (e.relay 0).nextSeq], [],
        ?_, .inr rfl, by simp, by simp [Job.call?], by simp, .inl (List.mem_singleton_self _)⟩
      -- of the commands listed only the new one is withdrawn: no other has its number
      have hothers : (e.relay 0).link.pending.map (Pending.withdraw (e.relay 0).nextSeq) =
          (e.relay 0).link.pending := by
        refine (List.map_congr_left fun p hp => if_neg fun heq => ?_).trans (List.map_id _)
        have hle := hnumbered p hp
        simp only [Relay.nextSeq] at heq
        omega
      simp [wrote, await, post, Agenda.post, mapRelay, setRelay, relay, Relay.withdraw,
        Pending.withdraw]
      exact ⟨hupdate _, hothers⟩
    · exact ⟨.windowed .pending, none, [],
        [⟨e.agenda.now + window.nanos, .expire id (e.relay 0).nextSeq⟩],
        by simp [await, wrote, hupdate, Agenda.setTimer], .inl rfl, by simp, by simp,
        by simp [Job.call?], rfl, .inr ⟨_, List.mem_singleton_self _, rfl⟩⟩

/-- **A call that writes a command**, or fails for want of the connection. -/
theorem shifts_ask (h : e.Orderly) (hcall : e.call? id = some c) (hfree : ¬ c.Waits)
    (hsource : Source e c a) : Shifts t e (e.ask id 0 a (.answer a.after)) := by
  cases hup : (e.relay 0).link.closed with
  | some cause =>
    unfold ask
    rw [operate_eq]
    simp only [Relay.ask_of_refused h.link.numbered (Link.refusal?_of_closed hup), fail]
    have hserved : Shift t e (e.takeIn (e.relay 0).takeSeq) :=
      .served ⟨⟨rfl, rfl, rfl, .of_outbox_eq rfl⟩, Relay.abides_takeSeq _, .refl _,
        .of_outbox_eq rfl⟩
        (h.sound.of_same rfl rfl rfl rfl (Nat.le_succ _))
    exact .tail (.single hserved) (.ended (call?_takeIn h.apart hcall hfree _) hfree (.failed _ rfl))
  | none =>
    have hask := Relay.ask_of_taken h.link.numbered (h.sound.refusal?_eq.trans hup) a.command
      a.arguments
    have hok : (e.operate 0 (Relay.ask a.command a.arguments)).2 = .ok (e.relay 0).nextSeq := by
      rw [operate_eq, hask]
    obtain ⟨watch, outcome, js, ts, heq, houtcome, hwatch, hjs, hts, -⟩ :=
      waitFor_eq h.relays h.collected h.link.numbered hcall a
    rw [ask_of_written hok, operate_eq, hask, heq]
    refine .tail (.single (.asked hcall hfree hsource hup houtcome hwatch)) (.timed _ ?_ ?_)
    · exact fun job hjob => (List.mem_append.mp hjob).elim (h.ready job)
        fun hjob => local_of_call? (hjs job hjob)
    · exact fun timer ht => (List.mem_append.mp ht).elim (h.timers timer)
        fun ht => local_of_call? (hts timer ht)

/-! ## Running for the first time -/

/-- A call that has not run does not wait. -/
theorem free_of_created {work : Work} (hstage : c.stage = .created work) : ¬ c.Waits := by
  simp [Call.Waits, hstage]

theorem shifts_query (h : e.Orderly) (hcall : e.call? id = some c) {q : Query}
    (hstage : c.stage = .created (.query 0 q)) : Shifts t e (e.query id 0 q) := by
  have hfree := free_of_created hstage
  unfold query
  cases hfirst : q.first (e.relay 0) with
  | error f => exact .single (.ended hcall hfree (.failed f rfl))
  | ok a => exact shifts_ask h hcall hfree (.first q hstage hfirst)

/-- The checks that an orderly relay writes are of open documents. -/
theorem checksOpen_of_check {r : Relay} (h : r.Sound) {uri : String} {c : CheckState}
    (hcheck : r.check? uri = some c) (seq : Int) :
    ChecksOpen r ⟨seq, Service.errorCheckName, Relay.checkArguments c.file⟩ := by
  obtain ⟨s, hopen, hfile⟩ := h.opened uri c hcheck
  exact ⟨seq, uri, s, hopen, by rw [hfile]⟩

theorem shifts_check (h : e.Orderly) (hcall : e.call? id = some c) {uri uri' : String}
    (hstage : c.stage = .created (.check 0 uri')) : Shifts t e (e.check id 0 uri) := by
  have hfree := free_of_created hstage
  have hcheck : c.IsCheck := by simp [Call.IsCheck, hstage]
  have hup := Relay.up_of_requestCheck uri id h.sound
  have hleaves := Relay.leaves_requestCheck uri id (e.relay 0)
  have hretains := Relay.retains_requestCheck uri id (e.relay 0)
  have haccounted := Relay.accounted_requestCheck uri id (e.relay 0)
  have hsound : ((e.relay 0).requestCheck uri id).1.Sound :=
    Relay.sound_perform (.requestCheck uri id) h.sound
  obtain ⟨r, habides, hsplit⟩ := Relay.requestCheck_split (P := ChecksOpen (e.relay 0)) True
    (fun seq s hopen => ⟨seq, uri, s, hopen, rfl⟩)
    (fun seq c hcheck => checksOpen_of_check h.sound hcheck seq) id
  unfold check
  rw [operate_eq]
  -- all but the waiting is an operation like others, and the waiting comes last
  generalize (e.relay 0).requestCheck uri id = asked
    at hup hleaves hretains haccounted hsound hsplit ⊢
  obtain ⟨r', result⟩ := asked
  rcases hsplit with ⟨hresult, heq⟩ | ⟨hresult, hrecord, heq⟩
  · simp only at heq hleaves hretains haccounted hsound hresult
    subst heq
    have hserved : Shift t e (e.takeIn r') := .served ⟨hleaves, habides, hretains, haccounted⟩ hsound
    have hcall' := call?_takeIn h.apart hcall hfree r'
    cases result with
    | error f => exact .tail (.single hserved) (.ended hcall' hfree (.failed f rfl))
    | ok waits =>
      cases waits with
      | true => exact absurd rfl hresult
      | false => exact .tail (.single hserved) (.ended hcall' hfree (.done rfl hcheck))
  · simp only at heq hleaves hretains haccounted hsound hresult
    subst heq hresult
    -- the waiter itself does not matter to what is in flight
    have hfrom := (Relay.retains_addWaiter uri id r).2
    exact .single (.waited hcall hfree hcheck (hup rfl)
      ⟨⟨hleaves.sessions, hleaves.setup, hleaves.standing, hleaves.adds⟩, habides,
        hretains.trans hfrom, haccounted.accounted_retains hfrom⟩ hrecord hsound)

theorem shifts_spawnChecks {whole : Nat} (uris : List String) (h : e.Orderly)
    (hcall : e.call? whole = some c) :
    Shifts t e (e.spawnChecks whole 0 uris) ∧ (e.spawnChecks whole 0 uris).call? whole = some c := by
  induction uris generalizing e with
  | nil => exact ⟨.refl, hcall⟩
  | cons uri rest ih =>
    have hmade : Shift t e (e.spawn (.part whole) (.check 0 uri)) :=
      .made _ _ trivial rfl (by simp)
    obtain ⟨hrest, hkept⟩ := ih (orderly_shift hmade h) (call?_spawn h.made hcall _ _)
    exact ⟨.head hmade hrest, hkept⟩

theorem shifts_checkAll (h : e.Orderly) (hcall : e.call? id = some c)
    (hstage : c.stage = .created (.checkAll 0)) : Shifts t e (e.checkAll id 0) := by
  have hfree := free_of_created hstage
  have hcheck : c.IsCheck := by simp [Call.IsCheck, hstage]
  unfold checkAll
  simp only []
  split
  · exact .single (.ended hcall hfree (.done rfl hcheck))
  · obtain ⟨hspawned, hkept⟩ := shifts_spawnChecks (t := t) (e.relay 0).uris h hcall
    refine hspawned.tail ?_
    rw [await_of_call hkept]
    exact .altered hkept (.gathered _ _ _ _ _ hfree hcheck)

/-- A call runs for the first time. -/
theorem shifts_begin (h : e.Orderly) (hcall : e.call? id = some c) {work : Work}
    (hstage : c.stage = .created work) : Shifts t e (e.begin id work) := by
  have hlocal := (h.regular _ (mem_of_call? hcall)).stage
  rw [hstage] at hlocal
  cases work with
  | query i q =>
    cases (show i = 0 from hlocal)
    exact shifts_query h hcall hstage
  | check i uri =>
    cases (show i = 0 from hlocal)
    exact shifts_check h hcall hstage
  | checkAll i =>
    cases (show i = 0 from hlocal)
    exact shifts_checkAll h hcall hstage
  | handle handler => exact absurd hlocal fun hfalse => hfalse

/-! ## Running on -/

variable {ask : Ask} {watch : Watch} {after : After} {told o : Except Failure Json}
variable {outcome : Option (Except Failure Json)}

/-- Only the options for formatting lead to another command. -/
theorem ask_of_proceed {window : Option Duration} (h : after.proceed window o = .ask a) :
    ∃ file text body, after = .formatOptions file text ∧ o = .ok body ∧
      a = After.formatAll window file text := by
  cases o with
  | error f => cases after <;> simp [After.proceed] at h
  | ok body =>
    cases after <;> simp [After.proceed, After.answer] at h
    exact ⟨_, _, body, rfl, rfl, h.symm⟩

theorem shifts_proceed (h : e.Orderly) (hcall : e.call? id = some c)
    (hstage : c.stage = .asking 0 seq ask watch (some told) (.answer after))
    (htold : o = told ∨ ∃ f, o = .error f) : Shifts t e (e.proceed id 0 (.answer after) o) := by
  have hfree : ¬ c.Waits := by simp [Call.Waits, hstage]
  unfold proceed
  simp only []
  cases hproceed : after.proceed (e.relay 0).setup.window o with
  | finished outcome => exact .single (.ended hcall hfree (.answered hstage htold hproceed))
  | ask a =>
    obtain ⟨file, text, body, rfl, rfl, ha⟩ := ask_of_proceed hproceed
    -- an error leads to no command, so the outcome is the response
    obtain rfl : told = .ok body := (htold.resolve_right (by simp)).symm
    exact shifts_ask h hcall hfree (.next file text hstage ha)

/-- A call has done with its command. -/
theorem shifts_leave (h : e.Orderly) (hcall : e.call? id = some c) {next : Continuation}
    (hstage : c.stage = .asking 0 seq ask watch (some told) next) :
    Shifts t e (e.leave id 0 seq) := by
  refine .tail (.single (.left hcall hstage)) (.timed _ h.ready fun timer htimer => ?_)
  exact h.timers timer (List.mem_of_mem_filter htimer)

/-- Leaving its command, a call goes on. -/
theorem shifts_leave_proceed (h : e.Orderly) (hcall : e.call? id = some c)
    (hstage : c.stage = .asking 0 seq ask watch (some told) (.answer after))
    (htold : o = told ∨ ∃ f, o = .error f) :
    Shifts t e ((e.leave id 0 seq).proceed id 0 (.answer after) o) := by
  have hleft := shifts_leave (t := t) h hcall hstage
  exact hleft.trans (shifts_proceed (h.shifts hleft) hcall hstage htold)

/-- A call gives its command up. -/
theorem shifts_giveUp (h : e.Orderly) (hcall : e.call? id = some c) {next : Continuation}
    (hstage : c.stage = .asking 0 seq ask watch none next) (why : Ending) :
    Shifts t e (e.giveUp id 0 seq ask why next) := by
  have hwithdrew : Shift t e _ := .withdrew hcall hstage (.ending why) false
  refine .tail (.single hwithdrew) ?_
  have hpost := shift_post (t := t) (orderly_shift hwithdrew h) (.passOn id seq) trivial
  have hcall' : (e.mapRelay 0 (Relay.withdraw seq)).call? id = some c := hcall
  unfold giveUp
  rw [await_of_call hcall']
  exact hpost

theorem shifts_endAsking (h : e.Orderly) (hcall : e.call? id = some c)
    (hstage : c.stage = .asking 0 seq ask watch (some told) (.answer after)) (why : Ending) :
    Shifts t e (e.endAsking id 0 seq ask why (.answer after)) := by
  have hleft := shifts_leave (t := t) h hcall hstage
  have horderly := h.shifts hleft
  cases why with
  | cancelled => exact shifts_leave_proceed h hcall hstage (.inr ⟨_, rfl⟩)
  | timedOut =>
    have hlogged : Shift t (e.leave id 0 seq)
        ((e.leave id 0 seq).log 0 .warning (lateText ask seq)) := .logged _ _
    exact (hleft.tail hlogged).trans
      (shifts_proceed (orderly_shift hlogged horderly) hcall hstage (.inr ⟨_, rfl⟩))

theorem shifts_wakeWindowed (h : e.Orderly) (hcall : e.call? id = some c)
    (hstage : c.stage = .asking 0 seq ask watch outcome (.answer after)) (why : Ending) :
    Shifts t e (e.wakeWindowed id 0 seq ask outcome why (.answer after)) := by
  cases outcome with
  | some o => exact shifts_leave_proceed h hcall hstage (.inl rfl)
  | none => exact shifts_giveUp h hcall hstage why

/-- A call that waits for a command is woken. -/
theorem shifts_resumeAsking (h : e.Orderly) (hcall : e.call? id = some c)
    (hstage : c.stage = .asking 0 seq ask watch outcome (.answer after)) :
    Shifts t e (e.resumeAsking id c.cancelled 0 seq ask watch outcome (.answer after)) := by
  have hstaged := (h.regular _ (mem_of_call? hcall)).stage
  rw [hstage] at hstaged
  obtain ⟨-, -, -, hunbounded, hending⟩ := hstaged
  unfold resumeAsking
  cases watch with
  | unbounded =>
    cases outcome with
    | none =>
      have hcancelled : c.cancelled = false := hunbounded rfl rfl
      simp only [hcancelled]
      exact .refl
    | some o =>
      simp only []
      split
      · exact shifts_leave_proceed h hcall hstage (.inr ⟨_, rfl⟩)
      · exact shifts_leave_proceed h hcall hstage (.inl rfl)
  | windowed signal =>
    simp only []
    split
    · exact shifts_wakeWindowed h hcall hstage .cancelled
    · cases signal with
      | pending => exact .refl
      | raised => exact shifts_wakeWindowed h hcall hstage .timedOut
      | cancelled => exact shifts_wakeWindowed h hcall hstage .cancelled
  | ending why =>
    cases outcome with
    | none => exact absurd rfl (hending why rfl)
    | some o => exact shifts_endAsking h hcall hstage _

/-- A call that has the outcome it waited for, or is to be cancelled, ends. -/
theorem ends_done (e : Engine) (hcheck : c.IsCheck) (o : Except Failure Unit) :
    Ends e c (done o) := by
  cases o with
  | error f => exact .failed f rfl
  | ok u => exact .done rfl hcheck

/-- **A call that runs on makes a chain of shifts.** -/
theorem shifts_resume (h : e.Orderly) (id : Nat) : Shifts t e (e.resume id) := by
  unfold resume
  cases hcall : e.call? id with
  | none => exact .refl
  | some c =>
    have hstaged := (h.regular _ (mem_of_call? hcall)).stage
    simp only []
    split
    · rename_i work hstage
      split
      · exact .single (.ended hcall (free_of_created hstage) (.failed _ rfl))
      · exact shifts_begin h hcall hstage
    · rename_i i seq ask watch outcome next hstage
      rw [hstage] at hstaged
      obtain ⟨rfl, -, ⟨after, rfl⟩, -⟩ := hstaged
      exact shifts_resumeAsking h hcall hstage
    · rename_i i outcome hstage
      rw [hstage] at hstaged
      cases outcome with
      | none =>
        have hcancelled : c.cancelled = false := hstaged.2 rfl
        simp only [hcancelled]
        exact .refl
      | some o =>
        have hfree : ¬ c.Waits := by simp [Call.Waits, hstage]
        have hcheck : c.IsCheck := by simp [Call.IsCheck, hstage]
        split
        · exact .single (.ended hcall hfree (.failed _ rfl))
        · exact .single (.ended hcall hfree (ends_done e hcheck o))
    · rename_i parts left outcome stopped hstage
      have hfree : ¬ c.Waits := by simp [Call.Waits, hstage]
      have hcheck : c.IsCheck := by simp [Call.IsCheck, hstage]
      split
      · exact .single (.ended hcall hfree (.failed _ rfl))
      · cases outcome with
        | none => exact .refl
        | some o => exact .single (.ended hcall hfree (ends_done e hcheck o))
    · rename_i handler hstage
      rw [hstage] at hstaged
      exact absurd hstaged fun hfalse => hfalse

/-! ## The other jobs -/

/-- A call is woken, and a job put in line for it. -/
theorem shifts_alter_post (h : e.Orderly) (hcall : e.call? id = some c) {stage : Stage}
    (halike : Alike c { c with stage }) {job : Job} (hjob : job.Local) :
    Shifts t e ((e.amend id stage).post job) := by
  have haltered : Shift t e (e.amend id stage) := by
    rw [amend_of_call hcall]
    exact .altered hcall halike
  exact .tail (.single haltered) (shift_post (orderly_shift haltered h) _ hjob)

/-- A call over the first relay that asks, asks it. -/
theorem stage_of_asking (h : e.Orderly) {role : Role} {i : Nat} {next : Continuation}
    {cancelled : Bool}
    (hcall : e.call? id = some ⟨role, .asking i seq ask watch outcome next, cancelled⟩) : i = 0 :=
  (h.regular _ (mem_of_call? hcall)).stage.1

theorem shifts_passOn (h : e.Orderly) (id seq : Nat) : Shifts t e (e.passOn id seq) := by
  unfold passOn
  split
  · rename_i role i s ask watch outcome next cancelled hcall
    obtain rfl := stage_of_asking h hcall
    split
    · split
      · exact shifts_alter_post h hcall (.woken .raised rfl) trivial
      · exact .single (shift_post h _ trivial)
      · exact .refl
    · exact .refl
  · exact .refl

theorem shifts_expire (h : e.Orderly) (id seq : Nat) : Shifts t e (e.expire id seq) := by
  unfold expire
  split
  · rename_i role i s ask outcome next cancelled hcall
    obtain rfl := stage_of_asking h hcall
    split
    · exact shifts_alter_post h hcall (.woken .raised rfl) trivial
    · exact .refl
  · exact .refl

theorem shifts_fire (h : e.Orderly) (uri : String) (timer : Nat) :
    Shifts t e (e.fire 0 uri timer) := by
  unfold fire
  rw [operate_eq]
  have hleaves := Relay.leaves_fire uri timer (e.relay 0)
  have hquiet := Relay.quiet_fire uri timer (e.relay 0)
  have hserved : Shift t e (e.takeIn ((e.relay 0).fire uri timer).1) :=
    .served ⟨hleaves, Relay.abides_fire uri timer _, Relay.retains_of_checks hquiet.checks,
      hquiet.adds.mono fun _ => Relay.accounted_of_not_ofChecks⟩
      (Relay.sound_perform (.fire uri timer) h.sound)
  cases ((e.relay 0).fire uri timer).2 with
  | true => exact .tail (.single hserved) (.made _ _ rfl rfl (by simp))
  | false => exact .single hserved

theorem shifts_partEnded (h : e.Orderly) (whole : Nat) (outcome : Except Failure Unit) :
    Shifts t e (e.partEnded whole outcome) := by
  unfold partEnded
  split
  · rename_i role parts left cancelled stopped hcall
    have halike : ∀ left' outcome, Alike ⟨role, .gathering parts left none cancelled, stopped⟩
        ⟨role, .gathering parts left' outcome cancelled, stopped⟩ := fun left' outcome =>
      .gathered parts left' outcome cancelled stopped (by simp [Call.Waits]) trivial
    split
    · exact shifts_alter_post h hcall (halike _ _) trivial
    · split
      · exact shifts_alter_post h hcall (halike _ _) trivial
      · rw [amend_of_call hcall]
        exact .single (.altered hcall (halike _ _))
  · exact .refl

theorem shifts_checkEnded (outcome : Except Failure Unit) (e : Engine) :
    Shifts t e (e.checkEnded 0 outcome) := by
  unfold checkEnded
  split
  · exact .refl
  · exact .refl
  · exact .single (.logged _ _)

/-- **A job is a chain of shifts.** -/
theorem shifts_dispatch (h : e.Orderly) {job : Job} (hjob : job.Local) :
    Shifts t e (e.dispatch job) := by
  cases job with
  | resume id => exact shifts_resume h id
  | passOn id seq => exact shifts_passOn h id seq
  | expire id seq => exact shifts_expire h id seq
  | fire i uri timer =>
    cases (show i = 0 from hjob)
    exact shifts_fire h uri timer
  | partEnded whole outcome => exact shifts_partEnded h whole outcome
  | checkEnded i outcome =>
    cases (show i = 0 from hjob)
    exact shifts_checkEnded outcome e

/-! ## Cancelling -/

/-- A call is to be cancelled when it next runs. -/
theorem shift_mark (hcall : e.call? id = some c)
    (h : c.Waits → ∃ seq ask signal outcome next,
      c.stage = .asking 0 seq ask (.windowed signal) outcome next) :
    Shift t e (e.markCancelled id) := by
  unfold markCancelled
  rw [update_of_call? hcall]
  exact .altered hcall (.marked h)

theorem shifts_cancelSimple (h : e.Orderly) (id : Nat) : Shifts t e (e.cancelSimple id) := by
  unfold cancelSimple
  cases hcall : e.call? id with
  | none => exact .refl
  | some c =>
    have hstaged := (h.regular _ (mem_of_call? hcall)).stage
    have hcall' : ∀ f, (e.mapRelay 0 f).call? id = some c := fun _ => hcall
    simp only []
    split
    · rename_i i seq ask next hstage
      rw [hstage] at hstaged
      obtain rfl : i = 0 := hstaged.1
      have hwithdrew : Shift t e _ := .withdrew hcall hstage .unbounded c.cancelled
      rw [amend_of_call (hcall' _)]
      exact .tail (.single hwithdrew) (shift_post (orderly_shift hwithdrew h) _ trivial)
    · rename_i i seq ask outcome next hstage
      rw [hstage] at hstaged
      obtain rfl : i = 0 := hstaged.1
      exact shifts_alter_post h hcall (.woken .cancelled hstage) trivial
    · rename_i i hstage
      rw [hstage] at hstaged
      obtain rfl : i = 0 := hstaged.1
      have hdropped : Shift t e _ := .dropped hcall hstage
      rw [amend_of_call (hcall' _)]
      exact .tail (.single hdropped) (shift_post (orderly_shift hdropped h) _ trivial)
    · rename_i handler hstage
      rw [hstage] at hstaged
      exact absurd hstaged fun hfalse => hfalse
    · rename_i hunbounded hwindowed hchecking hqueued
      refine .single (shift_mark hcall fun hwaits => ?_)
      -- what waits without a window was dealt with above
      obtain ⟨role, stage, cancelled⟩ := c
      cases stage with
      | asking i seq ask watch outcome next =>
        obtain rfl : i = 0 := hstaged.1
        cases outcome with
        | some o => exact absurd hwaits fun hfalse => hfalse
        | none =>
          cases watch with
          | unbounded => exact absurd rfl (hunbounded 0 seq ask next)
          | windowed signal => exact ⟨seq, ask, signal, none, next, rfl⟩
          | ending why => exact absurd rfl (hstaged.2.2.2.2 why rfl)
      | checking i outcome =>
        cases outcome with
        | some o => exact absurd hwaits fun hfalse => hfalse
        | none => exact absurd rfl (hchecking i)
      | _ => exact absurd hwaits fun hfalse => hfalse

/-- Cancelling another call leaves one that waits for no command and no
diagnostics as it is, or to be cancelled. -/
theorem call?_cancelSimple (hcall : e.call? id = some c) (hfree : ¬ c.Waits) (hseq : c.seq? = none)
    (other : Nat) : ∃ cancelled, (e.cancelSimple other).call? id = some { c with cancelled } := by
  have hsame : ∃ cancelled, some c = some { c with cancelled } := ⟨c.cancelled, rfl⟩
  have hupdate : ∀ f : Call → Call, (other = id → ∃ cancelled, f c = { c with cancelled }) →
      ∃ cancelled, Table.get? id (Table.update other f e.calls) = some { c with cancelled } := by
    intro f hf
    have hget : Table.get? id e.calls = some c := hcall
    rw [Table.get?_update, hget]
    split
    · rename_i heq
      obtain ⟨cancelled, hf⟩ := hf heq
      exact ⟨cancelled, by rw [Option.map_some, hf]⟩
    · exact hsame
  unfold cancelSimple
  cases hother : e.call? other with
  | none =>
    simp only [hcall]
    exact hsame
  | some d =>
    have hself : other = id → d = c := by
      rintro rfl
      exact Option.some.inj (hother.symm.trans hcall)
    simp only []
    split
    · rename_i hstage
      refine hupdate _ fun heq => ?_
      rw [← hself heq] at hseq
      simp [Call.seq?, hstage] at hseq
    · rename_i hstage
      refine hupdate _ fun heq => ?_
      rw [← hself heq] at hseq
      simp [Call.seq?, hstage] at hseq
    · rename_i hstage
      refine hupdate _ fun heq => ?_
      rw [← hself heq] at hfree
      simp [Call.Waits, hstage] at hfree
    · split
      · exact ⟨_, hcall⟩
      · exact hupdate _ fun _ => ⟨true, rfl⟩
    · exact hupdate _ fun _ => ⟨true, rfl⟩

theorem shifts_cancelParts (parts : List Nat) (h : e.Orderly) (hcall : e.call? id = some c)
    (hfree : ¬ c.Waits) (hseq : c.seq? = none) :
    Shifts t e (parts.foldl (fun e p => e.cancelSimple p) e) ∧
      ∃ cancelled, (parts.foldl (fun e p => e.cancelSimple p) e).call? id =
        some { c with cancelled } := by
  -- the call is carried along, marked or not: it may be among its own parts
  induction parts generalizing e c with
  | nil => exact ⟨.refl, c.cancelled, hcall⟩
  | cons p rest ih =>
    have hfirst := shifts_cancelSimple (t := t) h p
    obtain ⟨cancelled, hcall'⟩ := call?_cancelSimple hcall hfree hseq p
    obtain ⟨hrest, cancelled', hcall''⟩ := ih (h.shifts hfirst) hcall' hfree hseq
    exact ⟨hfirst.trans hrest, cancelled', hcall''⟩

/-- **Cancelling a call is a chain of shifts.** -/
theorem shifts_cancel (h : e.Orderly) (id : Nat) : Shifts t e (e.cancel id) := by
  unfold cancel
  split
  · rename_i role parts left stopped cancelled hcall
    have hfree : ¬ Call.Waits ⟨role, .gathering parts left none stopped, cancelled⟩ := by
      simp [Call.Waits]
    simp only []
    split
    · exact .single (shift_mark hcall fun hwaits => absurd hwaits hfree)
    · obtain ⟨hcancelled, b, hcall'⟩ := shifts_cancelParts (t := t)
        (parts.filter fun p => (e.call? p).isSome) h hcall hfree rfl
      refine hcancelled.tail ?_
      rw [amend_of_call hcall']
      exact .altered hcall' (.gathered parts left none true b (by simp [Call.Waits]) trivial)
  · exact shifts_cancelSimple h id

end Engine

end LanguageRelay
