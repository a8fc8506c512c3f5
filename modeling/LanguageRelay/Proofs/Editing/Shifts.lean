import LanguageRelay.Proofs.Editing.Deeds
import LanguageRelay.Proofs.Editing.Heeding
import LanguageRelay.Proofs.Engine.Bookkeeping
import LanguageRelay.Proofs.Relay.Conduct
import LanguageRelay.Proofs.Checks.Attribution
/-!
# What happens between two deeds

A deed that is not an operation of the relay itself, such as the next job of a
turn, takes the engine a long way: a call runs on, leaves its command, writes
another, ends, and tells of it. Each of these is a *shift* (`Shift`), one
constructor per change of the calls, the relay or the record, with all that is
known by then. So an invariant is proved once per shift, and once per operation
of the relay.

`Orderly` is what makes the list of shifts complete: the engine has one relay
whose outbox was collected, and calls wait as they do when nothing is started
or stopped. Every shift keeps it (`orderly_shift`), and so does taking in what
the relay did (`orderly_takeIn`).
-/

namespace LanguageRelay

/-- A job that is about the first relay, if about any. -/
def Job.Local : Job → Prop
  | .fire i _ _ | .checkEnded i _ => i = 0
  | _ => True

/-- A call that nobody but the client, a larger call or a timer of the first
relay is told of. -/
def Role.Local : Role → Prop
  | .timer i => i = 0
  | _ => True

/-- Work for the first relay. -/
def Work.Local : Work → Prop
  | .query i _ | .check i _ | .checkAll i => i = 0
  | .handle _ => False

namespace Call

/-- The call is for diagnostics, and puts no query. -/
def IsCheck (c : Call) : Prop :=
  match c.stage with
  | .created (.check ..) | .created (.checkAll _) | .checking .. | .gathering .. => True
  | _ => False

/-- The stage of a call over one relay, when commands are numbered up to
`last`. A call that waits without a window is not to be cancelled: it would
have been told at once. -/
def Staged (last : Nat) (cancelled : Bool) : Stage → Prop
  | .created work => work.Local
  | .asking i seq _ watch outcome next => i = 0 ∧ seq ≤ last ∧ (∃ after, next = .answer after) ∧
    (watch = .unbounded → outcome = none → cancelled = false) ∧
    (∀ why, watch = .ending why → outcome ≠ none)
  | .checking i outcome => i = 0 ∧ (outcome = none → cancelled = false)
  | .gathering .. => True
  | .queued _ => False

/-- **The call is one over the first relay.** -/
structure Regular (last : Nat) (c : Call) : Prop where
  role : c.role.Local
  stage : Staged last c.cancelled c.stage

/-- Numbers given out later do not matter. -/
theorem Regular.mono {last last' : Nat} {c : Call} (h : c.Regular last) (hlast : last ≤ last') :
    c.Regular last' := by
  refine ⟨h.role, ?_⟩
  have hstage := h.stage
  revert hstage
  cases c.stage with
  | asking i seq ask watch outcome next =>
    exact fun hstage => ⟨hstage.1, Nat.le_trans hstage.2.1 hlast, hstage.2.2⟩
  | _ => exact fun hstage => hstage

/-- The number of a call was given out. -/
theorem Regular.seq_le {last seq : Nat} {c : Call} (h : c.Regular last) (hseq : c.seq? = some seq) :
    seq ≤ last := by
  obtain ⟨role, stage, cancelled⟩ := c
  have hstage := h.stage
  cases stage with
  | asking i s ask watch outcome next =>
    cases hseq
    exact hstage.2.1
  | _ => cases hseq

end Call

/-- A command that is listed under the next number leaves the connection
sound. -/
theorem Link.Sound.expect {link : Link} (h : link.Sound) (hup : link.closed = none) (command : String)
    (settled : Bool) :
    Link.Sound { link with
      last := link.last + 1
      pending := link.pending ++ [⟨link.last + 1, command, settled⟩] } := by
  have hexpected := (Link.touched_expect h hup command).sound
  refine ⟨by simpa using hexpected.listed, fun p hp => ?_, fun hclosed => by simp [hup] at hclosed,
    h.unlimited⟩
  rcases List.mem_append.mp hp with hp | hp
  · exact Nat.le_succ_of_le (h.numbered p hp)
  · exact Nat.le_of_eq (by rw [List.mem_singleton.mp hp])

/-- An operation that abides by the rules leaves the connection sound. -/
theorem Relay.Abides.linkSound {P : Service.Command → Prop} {whole : Prop} {r r' : Relay}
    (h : Relay.Abides P whole r r') (hlink : r.link.Sound) : r'.link.Sound where
  listed := by rw [h.pending]; exact hlink.listed
  numbered p hp := Nat.le_trans (hlink.numbered p (by rwa [← h.pending])) h.last
  shut hclosed := by
    rw [h.pending]
    exact hlink.shut (by rwa [← h.closed])
  unlimited := by rw [h.link]; exact hlink.unlimited

namespace Engine

/-- Takes in what the relay did. -/
def takeIn (r : Relay) (e : Engine) : Engine :=
  r.outbox.foldl (deliver 0) (e.setRelay 0 { r with outbox := [] })

/-- An operation is done, and taken in. -/
theorem operate_eq {α : Type} (f : Relay → Relay × α) (e : Engine) :
    e.operate 0 f = (e.takeIn (f (e.relay 0)).1, (f (e.relay 0)).2) :=
  rfl

/-- **The engine is orderly.** -/
structure Orderly (e : Engine) : Prop where
  alone : e.relays.length = 1
  collected : (e.relay 0).outbox = []
  sound : (e.relay 0).Sound
  link : (e.relay 0).link.Sound
  apart : Apart e.calls
  made : ∀ x ∈ e.calls, x.1 ≤ e.lastCall
  regular : ∀ x ∈ e.calls, x.2.Regular (e.relay 0).link.last
  ready : ∀ job ∈ e.agenda.ready, job.Local
  timers : ∀ t ∈ e.agenda.timers, t.job.Local

/-- The command is an error check of an open document. -/
def ChecksOpen (r : Relay) (command : Service.Command) : Prop :=
  ∃ seq uri s, r.session? uri = some s ∧
    command = ⟨seq, Service.errorCheckName, Relay.checkArguments s.file⟩

/-- What a relay does for a call, short of making it wait. -/
structure Serves (r r' : Relay) : Prop where
  leaves : Relay.LeavesDocuments r r'
  abides : Relay.Abides (ChecksOpen r) True r r'
  retains : Relay.Retains r r'
  accounted : Relay.Adds (Relay.Accounted r') r r'

/-- A command that a call writes: the first of its query, or the one that formats
the document when the options are set. -/
inductive Source (e : Engine) (c : Call) (a : Ask) : Prop where
  | first (q : Query) (hstage : c.stage = .created (.query 0 q)) (hq : q.first (e.relay 0) = .ok a)
  | next {seq ask watch body} (file : String) (text : List Char)
      (hstage : c.stage =
        .asking 0 seq ask watch (some (.ok body)) (.answer (.formatOptions file text)))
      (ha : a = After.formatAll (e.relay 0).setup.window file text)

/-- How a call may end: it fails, it is done, or it has an answer. -/
inductive Ends (e : Engine) (c : Call) (outcome : Except Failure Answer) : Prop where
  | failed (f : Failure) (h : outcome = .error f)
  | done (h : outcome = .ok .nothing) (hcheck : c.IsCheck)
  | answered {seq ask watch told o after}
      (hstage : c.stage = .asking 0 seq ask watch (some told) (.answer after))
      (htold : o = told ∨ ∃ f, o = .error f)
      (h : after.proceed (e.relay 0).setup.window o = .finished outcome)

/-- A call may change in what does not matter to the relay: it is woken or to be
cancelled, or its parts go on. -/
inductive Alike (c : Call) : Call → Prop where
  | woken {seq ask signal outcome next} (signal' : Signal)
      (hstage : c.stage = .asking 0 seq ask (.windowed signal) outcome next) :
      Alike c { c with stage := .asking 0 seq ask (.windowed signal') outcome next }
  | marked (h : c.Waits → ∃ seq ask signal outcome next,
      c.stage = .asking 0 seq ask (.windowed signal) outcome next) :
      Alike c { c with cancelled := true }
  | gathered (parts : List Nat) (left : Nat) (outcome : Option (Except Failure Unit))
      (stopped cancelled : Bool) (hwaits : ¬ c.Waits) (hcheck : c.IsCheck) :
      Alike c ⟨c.role, .gathering parts left outcome stopped, cancelled⟩

/-- **What can happen to an engine between two deeds.** -/
inductive Shift (t : Terms) (e : Engine) : Engine → Prop where
  /-- The relay does something for a call. -/
  | served {r : Relay} (hserves : Serves (e.relay 0) r) (hsound : r.Sound) :
      Shift t e (e.takeIn r)
  /-- A call is made. -/
  | made (role : Role) (work : Work) (hrole : role.Local) (hwork : work.Local)
      (hputs : ∀ i q, work = .query i q → t.puts e q) : Shift t e (e.spawn role work)
  /-- A call writes a command, and waits for its outcome unless it withdraws it
  at once. -/
  | asked {id : Nat} {c : Call} {a : Ask} {watch : Watch} {outcome : Option (Except Failure Json)}
      (hcall : e.call? id = some c) (hfree : ¬ c.Waits) (hsource : Source e c a)
      (hup : (e.relay 0).link.closed = none)
      (houtcome : outcome = none ∨ outcome = some (.error .cancelled))
      (hwatch : ∀ why, watch = .ending why → outcome ≠ none) :
      Shift t e
        { e with
          relays := [{ e.relay 0 with
            link := { (e.relay 0).link with
              last := (e.relay 0).nextSeq
              pending := (e.relay 0).link.pending ++
                [⟨(e.relay 0).nextSeq, a.command, outcome.isSome⟩] } }]
          calls := Table.update id (fun _ =>
            ⟨c.role, .asking 0 (e.relay 0).nextSeq a watch outcome (.answer a.after), false⟩) e.calls
          record := e.record ++ [(0, .sent ⟨(e.relay 0).nextSeq, a.command, a.arguments⟩)] }
  /-- A call waits for the diagnostics of a document. -/
  | waited {id : Nat} {c : Call} {uri : String} {r : Relay} (hcall : e.call? id = some c)
      (hfree : ¬ c.Waits) (hcheck : c.IsCheck) (hup : (e.relay 0).link.closed = none)
      (hserves : Serves (e.relay 0) r) (hrecord : (r.check? uri).isSome)
      (hsound : (r.addWaiter uri id).Sound) :
      Shift t e ((e.takeIn (r.addWaiter uri id)).await id (.checking 0 none))
  /-- A call gives up its command. -/
  | withdrew {id : Nat} {c : Call} {seq : Nat} {ask : Ask} {watch : Watch} {next : Continuation}
      (hcall : e.call? id = some c) (hstage : c.stage = .asking 0 seq ask watch none next)
      (watch' : Watch) (cancelled : Bool) :
      Shift t e
        { e.mapRelay 0 (Relay.withdraw seq) with
          calls := Table.update id (fun _ =>
            ⟨c.role, .asking 0 seq ask watch' (some (.error .cancelled)) next, cancelled⟩) e.calls }
  /-- A call waits for diagnostics no more. -/
  | dropped {id : Nat} {c : Call} (hcall : e.call? id = some c) (hstage : c.stage = .checking 0 none) :
      Shift t e
        { e.mapRelay 0 (Relay.withdrawWaiter id) with
          calls := Table.update id (fun _ =>
            { c with stage := .checking 0 (some (.error .cancelled)) }) e.calls }
  /-- A call has done with its command. -/
  | left {id : Nat} {c : Call} {seq : Nat} {ask : Ask} {watch : Watch} {o : Except Failure Json}
      {next : Continuation} (hcall : e.call? id = some c)
      (hstage : c.stage = .asking 0 seq ask watch (some o) next) :
      Shift t e (e.mapRelay 0 (Relay.unlist seq))
  /-- A call changes in what does not matter to the relay. -/
  | altered {id : Nat} {c c' : Call} (hcall : e.call? id = some c) (halike : Alike c c') :
      Shift t e { e with calls := Table.update id (fun _ => c') e.calls }
  /-- A call ends. -/
  | ended {id : Nat} {c : Call} {outcome : Except Failure Answer} (hcall : e.call? id = some c)
      (hfree : ¬ c.Waits) (hends : Ends e c outcome) : Shift t e (e.finish id outcome)
  | logged (level : LogLevel) (text : String) : Shift t e (e.log 0 level text)
  /-- Jobs are put in line or taken from it, timers set or taken back, and the
  clock moves on. -/
  | timed (agenda : Agenda Job) (hready : ∀ job ∈ agenda.ready, job.Local)
      (htimers : ∀ t ∈ agenda.timers, t.job.Local) : Shift t e { e with agenda }

/-- Any number of shifts. -/
abbrev Shifts (t : Terms) : Engine → Engine → Prop := Relation.ReflTransGen (Shift t)

variable {t : Terms} {e e' : Engine} {r : Relay} {id : Nat} {c c' : Call}

/-- What every shift keeps, any number of shifts keep. -/
theorem Shifts.keep {P : Engine → Prop} (hstep : ∀ e e', Shift t e e' → P e → P e')
    (h : Shifts t e e') (hP : P e) : P e' := by
  induction h with
  | refl => exact hP
  | tail _ hlast ih => exact hstep _ _ hlast ih

/-! ## Taking in -/

theorem relay_of_relays (h : e.relays = [r]) : e.relay 0 = r := by simp [relay, h]

/-- An orderly engine has the first relay alone. -/
theorem Orderly.relays (h : e.Orderly) : e.relays = [e.relay 0] := by
  obtain ⟨r, hr⟩ := List.length_eq_one_iff.mp h.alone
  rw [hr, relay_of_relays hr]

theorem relays_setRelay (h : e.relays.length = 1) (r : Relay) :
    (e.setRelay 0 r).relays = [r] := by
  obtain ⟨r₀, hr₀⟩ := List.length_eq_one_iff.mp h
  simp [setRelay, hr₀]

@[simp] theorem relay_setRelay (h : e.relays.length = 1) (r : Relay) :
    (e.setRelay 0 r).relay 0 = r :=
  relay_of_relays (relays_setRelay h r)

/-- The relay that is changed is the first. -/
theorem relay_mapRelay (h : e.Orderly) (f : Relay → Relay) :
    (e.mapRelay 0 f).relay 0 = f (e.relay 0) :=
  relay_setRelay h.alone _

/-- So it is when calls change as well. -/
theorem relay_mapRelay_calls (h : e.Orderly) (f : Relay → Relay) (calls : List (Nat × Call)) :
    Engine.relay 0 { e.mapRelay 0 f with calls } = f (e.relay 0) :=
  relay_mapRelay h f

/-- What is taken in is heeded. -/
theorem heeded_takeIn (happart : Apart e.calls) (r : Relay) :
    Heeded r.outbox (e.setRelay 0 { r with outbox := [] }) (e.takeIn r) :=
  heeded_effects (e := e.setRelay 0 { r with outbox := [] }) happart r.outbox

theorem relay_takeIn (h : e.Orderly) (r : Relay) : (e.takeIn r).relay 0 = { r with outbox := [] } := by
  have hsame := (heeded_takeIn h.apart r).same
  rw [hsame]
  exact relay_setRelay h.alone _

/-- Outcomes leave a call regular. -/
theorem regular_heed {last : Nat} (h : c.Regular last) (fx : List Effect) (id : Nat) :
    (fx.foldl (Call.heed id) c).Regular last := by
  rcases foldl_heed_cases fx id c with ⟨hfold, -⟩ | ⟨seq, ask, watch, next, o, hstage, -, hfold⟩ |
    ⟨i, o, hstage, -, hfold⟩
  · rwa [hfold]
  · rw [hfold]
    have hstaged := h.stage
    rw [hstage] at hstaged
    exact ⟨h.role, hstaged.1, hstaged.2.1, hstaged.2.2.1, by simp, by simp⟩
  · rw [hfold]
    have hstaged := h.stage
    rw [hstage] at hstaged
    exact ⟨h.role, hstaged.1, by simp⟩

/-- The timers a relay sets are its own. -/
theorem timers_heed_local (fx : List Effect) (delay : Int) (a : Agenda Job)
    (h : ∀ t ∈ a.timers, t.job.Local) : ∀ t ∈ (fx.foldl (Agenda.heed delay) a).timers, t.job.Local := by
  induction fx generalizing a with
  | nil => exact h
  | cons effect rest ih =>
    refine ih _ fun t ht => ?_
    cases effect with
    | armed uri timer =>
      rcases List.mem_append.mp ht with ht | ht
      · exact h t ht
      · rw [List.mem_singleton.mp ht]
        rfl
    | disarmed uri timer => exact h t (List.mem_of_mem_filter ht)
    | _ => exact h t ht

/-- **Taking in what the relay did keeps the engine orderly**, if that kept the
relay sound. -/
theorem orderly_takeIn (h : e.Orderly) (hsound : r.Sound) (hlink : r.link.Sound)
    (hlast : (e.relay 0).link.last ≤ r.link.last) : (e.takeIn r).Orderly := by
  have hheeded := heeded_takeIn h.apart r
  have hrelay := relay_takeIn h r
  have hsame := hheeded.same
  obtain ⟨js, hagenda, hlocal, -⟩ := hheeded.agenda
  have hcalls : (e.takeIn r).calls =
      e.calls.map fun x => (x.1, r.outbox.foldl (Call.heed x.1) x.2) := hheeded.calls
  refine ⟨?_, by rw [hrelay], ?_, by rw [hrelay]; exact hlink, ?_, fun x hx => ?_, fun x hx => ?_,
    fun job hjob => ?_, fun t ht => ?_⟩
  · rw [hsame]
    exact (congrArg List.length (relays_setRelay h.alone _))
  · rw [hrelay]
    exact hsound.of_same rfl rfl rfl rfl (Nat.le_refl _)
  · rw [hcalls]
    exact h.apart.map fun x => by simp
  · rw [hcalls] at hx
    obtain ⟨y, hy, rfl⟩ := List.mem_map.mp hx
    rw [hsame]
    exact h.made y hy
  · rw [hcalls] at hx
    obtain ⟨y, hy, rfl⟩ := List.mem_map.mp hx
    rw [hrelay]
    exact regular_heed ((h.regular y hy).mono hlast) _ _
  · rw [hagenda] at hjob
    rcases List.mem_append.mp hjob with hjob | hjob
    · exact h.ready job hjob
    · have hcall := hlocal job hjob
      cases job <;> first | exact trivial | simp [Job.call?] at hcall
  · rw [hagenda] at ht
    exact timers_heed_local _ _ _ h.timers t ht

/-! ## Shifts keep order -/

/-- What matters is the relay and the calls, one by one. -/
theorem Orderly.change (h : e.Orderly) (hrelays : e'.relays = [r]) (houtbox : r.outbox = [])
    (hsound : r.Sound) (hlink : r.link.Sound) (hlast : (e.relay 0).link.last ≤ r.link.last)
    (happart : Apart e'.calls) (hlastCall : e'.lastCall = e.lastCall)
    (hcalls : ∀ x ∈ e'.calls, x ∈ e.calls ∨ x.1 ≤ e.lastCall ∧ x.2.Regular r.link.last)
    (hagenda : e'.agenda = e.agenda) : e'.Orderly := by
  have hrelay : e'.relay 0 = r := relay_of_relays hrelays
  refine ⟨by rw [hrelays]; rfl, by rw [hrelay, houtbox], by rwa [hrelay], by rwa [hrelay], happart,
    fun x hx => ?_, fun x hx => ?_, by rw [hagenda]; exact h.ready, by rw [hagenda]; exact h.timers⟩
  · rw [hlastCall]
    exact (hcalls x hx).elim (h.made x) And.left
  · rw [hrelay]
    exact (hcalls x hx).elim (fun hx => (h.regular x hx).mono hlast) And.right

/-- One call may change, if it stays regular and has a number that is no other
call's. -/
theorem Orderly.update (h : e.Orderly) (hcall : e.call? id = some c) (c' : Call)
    (hrelays : e'.relays = [r]) (houtbox : r.outbox = []) (hsound : r.Sound)
    (hlink : r.link.Sound) (hlast : (e.relay 0).link.last ≤ r.link.last)
    (hregular : c'.Regular r.link.last)
    (hseq : c'.seq? = none ∨ c'.seq? = c.seq? ∨ c'.seq? = some ((e.relay 0).link.last + 1))
    (hcalls : e'.calls = Table.update id (fun _ => c') e.calls) (hlastCall : e'.lastCall = e.lastCall)
    (hagenda : e'.agenda = e.agenda) : e'.Orderly := by
  have hmem := mem_of_call? hcall
  refine h.change hrelays houtbox hsound hlink hlast ?_ hlastCall (fun x hx => ?_) hagenda
  · rw [hcalls]
    -- the call's own number is no other call's, and a new one is above all there are
    refine h.apart.update fun x hx hid seq hnew hold => ?_
    rcases hseq with hseq | hseq | hseq
    · rw [hseq] at hnew
      cases hnew
    · exact hid (h.apart.distinct x hx (id, c) hmem seq hold (hseq ▸ hnew))
    · rw [hseq] at hnew
      cases hnew
      have hle := (h.regular x hx).seq_le hold
      omega
  · rw [hcalls] at hx
    rcases (Table.mem_update_iff h.apart.single).mp hx with ⟨hid, -, -, hx⟩ | ⟨-, hx⟩
    · exact .inr ⟨hid ▸ h.made _ hmem, hx ▸ hregular⟩
    · exact .inl hx

/-- The agenda after a call ended: whom it concerns is told by a job at most. -/
def Tells (role : Role) (agenda agenda' : Agenda Job) : Prop :=
  agenda' = agenda ∨ ∃ job, agenda' = agenda.post job ∧ (role.Local → job.Local)

theorem report_eq (role : Role) (outcome : Except Failure Answer) (e : Engine) :
    ∃ ended agenda, e.report role outcome = { e with ended, agenda } ∧
      Tells role e.agenda agenda := by
  unfold report
  cases role with
  | client name => exact ⟨_, _, rfl, .inl rfl⟩
  | part whole => exact ⟨_, _, rfl, .inr ⟨_, rfl, fun _ => trivial⟩⟩
  | timer relay => exact ⟨_, _, rfl, .inr ⟨_, rfl, fun hlocal => hlocal⟩⟩

theorem keep_eq (id : Nat) (answer : Answer) (e : Engine) :
    ∃ handedOut, (e.keep id answer).1 = { e with handedOut } := by
  unfold keep
  split
  · exact ⟨_, rfl⟩
  · exact ⟨_, rfl⟩
  · split <;> exact ⟨_, rfl⟩
  · exact ⟨_, rfl⟩

/-- A call that ends leaves the calls, and tells of it. -/
theorem finish_of_call (hcall : e.call? id = some c) (outcome : Except Failure Answer) :
    ∃ handedOut ended agenda, e.finish id outcome =
      { e with calls := Table.erase id e.calls, handedOut, ended, agenda } ∧
        Tells c.role e.agenda agenda := by
  unfold finish
  simp only [hcall]
  cases outcome with
  | error f =>
    obtain ⟨ended, agenda, hreport, htells⟩ :=
      report_eq c.role (.error f) { e with calls := Table.erase id e.calls }
    exact ⟨_, ended, agenda, hreport, htells⟩
  | ok answer =>
    obtain ⟨handedOut, hkept⟩ := keep_eq id answer { e with calls := Table.erase id e.calls }
    dsimp only at hkept ⊢
    generalize keep id answer _ = kept at hkept ⊢
    obtain ⟨e₁, answer⟩ := kept
    subst hkept
    obtain ⟨ended, agenda, hreport, htells⟩ := report_eq c.role (.ok answer)
      { e with calls := Table.erase id e.calls, handedOut }
    exact ⟨handedOut, ended, agenda, hreport, htells⟩

/-- Making a call keeps the engine orderly. -/
theorem Orderly.spawn (h : e.Orderly) {role : Role} {work : Work} (hrole : role.Local)
    (hwork : work.Local) : (e.spawn role work).Orderly := by
  have hcases : ∀ x ∈ (e.spawn role work).calls,
      x = (e.lastCall + 1, ⟨role, .created work, false⟩) ∨ x ∈ e.calls := fun _ => Table.mem_put
  refine ⟨h.alone, h.collected, h.sound, h.link, ?_, fun x hx => ?_, fun x hx => ?_,
    fun job hjob => ?_, h.timers⟩
  · rw [calls_spawn h.made]
    exact h.apart.append (next_not_mem_keys h.made) rfl
  · rcases hcases x hx with rfl | hx
    · exact Nat.le_refl _
    · exact Nat.le_succ_of_le (h.made x hx)
  · rcases hcases x hx with rfl | hx
    · exact ⟨hrole, hwork⟩
    · exact h.regular x hx
  · rcases List.mem_append.mp hjob with hjob | hjob
    · exact h.ready job hjob
    · rw [List.mem_singleton.mp hjob]
      trivial

/-- So does making one wait for the diagnostics of a document. -/
theorem Orderly.await_check (h : e.Orderly) (hcall : e.call? id = some c) :
    (e.await id (.checking 0 none)).Orderly :=
  h.update hcall ⟨c.role, .checking 0 none, false⟩ h.relays h.collected h.sound h.link
    (Nat.le_refl _) ⟨(h.regular _ (mem_of_call? hcall)).role, rfl, fun _ => rfl⟩ (.inl rfl)
    (update_of_call? hcall) rfl rfl

/-- And so does the end of one. -/
theorem Orderly.finish (h : e.Orderly) (hcall : e.call? id = some c)
    (outcome : Except Failure Answer) : (e.finish id outcome).Orderly := by
  obtain ⟨handedOut, told, agenda, hfinish, htells⟩ := finish_of_call hcall outcome
  have hrole := (h.regular _ (mem_of_call? hcall)).role
  have hsub : ∀ x ∈ Table.erase id e.calls, x ∈ e.calls :=
    fun x hx => (Table.mem_erase_iff.mp hx).1
  have hapart : Apart (Table.erase id e.calls) :=
    h.apart.sublist (by rw [Table.erase_eq_filter]; exact List.filter_sublist)
  rw [hfinish]
  refine ⟨h.alone, h.collected, h.sound, h.link, hapart, fun x hx => h.made x (hsub x hx),
    fun x hx => h.regular x (hsub x hx), fun job hjob => ?_, fun t ht => ?_⟩
  · rcases htells with rfl | ⟨note, rfl, hlocal⟩
    · exact h.ready job hjob
    · rcases List.mem_append.mp hjob with hjob | hjob
      · exact h.ready job hjob
      · rw [List.mem_singleton.mp hjob]
        exact hlocal hrole
  · rcases htells with rfl | ⟨note, rfl, -⟩ <;> exact h.timers t ht

/-- A call stays regular when it changes in what does not matter to the relay. -/
theorem Alike.regular {last : Nat} (halike : Alike c c') (h : c.Regular last) :
    c'.Regular last := by
  have hstaged := h.stage
  cases halike with
  | woken signal' hstage =>
    rw [hstage] at hstaged
    exact ⟨h.role, hstaged.1, hstaged.2.1, hstaged.2.2.1, by simp, by simp⟩
  | marked hwaits =>
    refine ⟨h.role, ?_⟩
    obtain ⟨role, stage, cancelled⟩ := c
    -- a call that waits without a window is never marked
    cases stage with
    | asking i seq ask watch outcome next =>
      refine ⟨hstaged.1, hstaged.2.1, hstaged.2.2.1, fun hwatch hnone => ?_, hstaged.2.2.2.2⟩
      subst hwatch hnone
      obtain ⟨_, _, _, _, _, hstage⟩ := hwaits trivial
      cases hstage
    | checking i outcome =>
      refine ⟨hstaged.1, fun hnone => ?_⟩
      subst hnone
      obtain ⟨_, _, _, _, _, hstage⟩ := hwaits trivial
      cases hstage
    | _ => exact hstaged
  | gathered => exact ⟨h.role, trivial⟩

/-- And it gets no command that it did not have. -/
theorem Alike.seq? (halike : Alike c c') : c'.seq? = none ∨ c'.seq? = c.seq? := by
  cases halike with
  | woken signal' hstage => exact .inr (by simp [Call.seq?, hstage])
  | marked => exact .inr rfl
  | gathered => exact .inl rfl

/-- **Every shift keeps the engine orderly.** -/
theorem orderly_shift (hshift : Shift t e e') (h : e.Orderly) : e'.Orderly := by
  cases hshift with
  | served hserves hsound =>
    exact orderly_takeIn h hsound (hserves.abides.linkSound h.link) hserves.abides.last
  | made role work hrole hwork hputs => exact h.spawn hrole hwork
  | @asked id c a watch outcome hcall hfree hsource hup houtcome hwatch =>
    refine h.update hcall _ rfl h.collected ?_ (h.link.expect hup a.command outcome.isSome)
      (Nat.le_succ _) ?_ (.inr (.inr rfl)) rfl rfl rfl
    · exact h.sound.of_same rfl rfl rfl rfl (Nat.le_succ _)
    · exact ⟨(h.regular _ (mem_of_call? hcall)).role, rfl, Nat.le_refl _, ⟨_, rfl⟩, fun _ _ => rfl,
        hwatch⟩
  | @waited id c uri r hcall hfree hseq hup hserves hrecord hsound =>
    have hlink : (r.addWaiter uri id).link.Sound := hserves.abides.linkSound h.link
    have htaken := orderly_takeIn h hsound hlink hserves.abides.last
    -- the call is still there to be made to wait
    have hcalls : (e.takeIn (r.addWaiter uri id)).calls = _ := (heeded_takeIn h.apart _).calls
    exact htaken.await_check ((Table.get?_eq_some_iff htaken.apart.single).mpr (hcalls ▸
      List.mem_map_of_mem (mem_of_call? hcall)))
  | @withdrew id c seq ask watch next hcall hstage watch' cancelled =>
    have hregular := h.regular _ (mem_of_call? hcall)
    have hstaged := hregular.stage
    rw [hstage] at hstaged
    refine h.update hcall _ (relays_setRelay h.alone _) h.collected
      (h.sound.of_same rfl rfl rfl rfl (Nat.le_refl _)) (Link.touched_withdraw h.link seq).sound
      (Nat.le_refl _) ?_ (.inr (.inl ?_)) rfl rfl rfl
    · exact ⟨hregular.role, hstaged.1, hstaged.2.1, hstaged.2.2.1, by simp, by simp⟩
    · simp [Call.seq?, hstage]
  | @dropped id c hcall hstage =>
    refine h.update hcall _ (relays_setRelay h.alone _) h.collected
      (Relay.sound_perform (.withdrawWaiter id) h.sound) h.link (Nat.le_refl _) ?_ (.inl rfl) rfl rfl rfl
    exact ⟨(h.regular _ (mem_of_call? hcall)).role, rfl, by simp⟩
  | @left id c seq ask watch o next hcall hstage =>
    exact h.change (relays_setRelay h.alone _) h.collected
      (h.sound.of_same rfl rfl rfl rfl (Nat.le_refl _)) (Link.touched_unlist h.link seq).sound
      (Nat.le_refl _) h.apart rfl (fun _ hx => .inl hx) rfl
  | @altered id c c' hcall halike =>
    exact h.update hcall c' h.relays h.collected h.sound h.link (Nat.le_refl _)
      (halike.regular (h.regular _ (mem_of_call? hcall))) (halike.seq?.imp_right .inl) rfl rfl rfl
  | @ended id c outcome hcall hfree hends => exact h.finish hcall outcome
  | logged level text =>
    exact h.change h.relays h.collected h.sound h.link (Nat.le_refl _) h.apart rfl
      (fun _ hx => .inl hx) rfl
  | timed agenda hready htimers =>
    exact ⟨h.alone, h.collected, h.sound, h.link, h.apart, h.made, h.regular, hready, htimers⟩

end Engine

end LanguageRelay
