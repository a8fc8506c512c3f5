import LanguageRelay.Proofs.Desk.Aside
/-!
# Dealings with the station

Every incident comes to dealings with the station of an engine, none or a few one
after another (`Incident.dealings`), and is nothing to it beyond them
(`passes_incident`). A start that takes no time is dealt with like one that takes
its time and is over at once.
-/

namespace LanguageRelay

/-- The outcome with which a call goes on when it is woken, of those that wait for a
command. -/
def Call.verdict? (c : Call) : Option (Except Failure Json) :=
  match c.stage with
  | .asking _ _ _ .unbounded outcome _ => if c.cancelled then some (.error .cancelled) else outcome
  | .asking _ _ _ (.windowed signal) outcome _ =>
    if c.cancelled || signal != .pending then outcome else none
  | .asking _ seq a (.ending why) _ _ =>
    match if c.cancelled then .cancelled else why with
    | .cancelled => some (.error .cancelled)
    | .timedOut => some (.error (.timedOut a.command seq a.shownWindow))
  | _ => none

/-- What is had to do with processes when a call goes on with an outcome. -/
def Continuation.dealing? (id i seq : Nat) (outcome : Except Failure Json) :
    Continuation → Option Dealing
  | .startup _ =>
    match outcome with
    | .ok _ => some (.ready i)
    | .error f => some (.fail id (if seq = 0 then none else some i) f)
  | .answer _ => if seq = 0 then some (.abandon i) else none

namespace Engine

/-- What is had to do with processes by a job that neither starts nor stops one. -/
def concluding? (job : Job) (e : Engine) : Option Dealing :=
  match job with
  | .resume id =>
    (e.call? id).bind fun c =>
      match c.stage with
      | .created (.handle .shutdown) => if c.cancelled then none else some .shut
      | .asking i seq _ _ _ next => c.verdict?.bind fun o => next.dealing? id i seq o
      | _ => none
  | _ => none

/-- What is had to do with processes when one is up, or has failed to come up. -/
def openedDealings (id : Nat) (outcome : Except Failure (Option Closure)) (e : Engine) :
    List Dealing :=
  match e.opener? id, outcome with
  | none, _ => []
  | some _, .error f => [.fail id none f]
  | some _, .ok none => [.connect e.relays.length]
  | some _, .ok (some cause) =>
    [.connect e.relays.length, .fail id (some e.relays.length) (.closed cause)]

/-- What is had to do with processes when one is let go. -/
def closingDealings (i : Nat) (refusal : Option Closure) (e : Engine) : List Dealing :=
  .shut :: if ((e.relay i).shutdownOver refusal).2.isSome then [.abandon i] else []

/-- What is had to do with processes when one has ended, or could not be made to. -/
def stoppedDealings (id : Nat) (failure : Option Failure) (e : Engine) : List Dealing :=
  match e.closer? id, failure with
  | none, _ => []
  | some i, some _ => [.abandon i]
  | some i, none => [.stop i]

/-- What is had to do with processes by a job. -/
def jobDealings (job : Job) (e : Engine) : List Dealing :=
  match e.launching? job, e.leaving? job with
  | some (id, h), _ =>
    .launch id :: ((e.leaveLine id).opening id h).openedDealings id e.startOutcome
  | none, some (_, i) => [.shut, .stop i]
  | none, none => (e.concluding? job).toList

/-- The same, but a process that is started or stopped takes its time. -/
def slowDealings (refusal : Option Closure) (job : Job) (e : Engine) : List Dealing :=
  match e.launching? job, e.leaving? job with
  | some (id, _), _ => [.launch id]
  | none, some (_, i) => e.closingDealings i refusal
  | none, none => (e.concluding? job).toList

namespace Incident

/-- What is had to do with processes by an incident. -/
def dealings (a : Incident) (m : Moment) : List Dealing :=
  match a with
  | errand (.plain .job) => (m.todo.head?.map fun job => m.engine.jobDealings job).getD []
  | errand _ => []
  | slowly refusal => (m.todo.head?.map fun job => m.engine.slowDealings refusal job).getD []
  | opened id outcome => m.engine.openedDealings id outcome
  | stopped id failure => m.engine.stoppedDealings id failure

/-- The message that is heard by an incident, and the relay that hears it. -/
def heard? (a : Incident) : Option (Nat × Json) :=
  match a with
  | errand (.receive i message) => some (i, message)
  | errand (.plain (.receive message)) => some (0, message)
  | _ => none

/-- A good answer to a command of a relay is heard by an incident. -/
def Hears (a : Incident) (p : Nat × Nat) : Prop :=
  ∃ message, a.heard? = some (p.1, message) ∧ p.2 ≠ 0 ∧ Relay.Approves message p.2

end Incident

/-- A relay has introduced itself, by a command under a number. -/
def Said (p : Nat × Nat) (e : Engine) : Prop :=
  (p.1, .sent ⟨p.2, Service.configureName, Query.introductionArguments⟩) ∈ e.record

/-- Dealings are had with the station, and what was done before stays on record. -/
structure Deals (heard : Nat × Nat → Prop) (ds : List Dealing) (e e' : Engine) : Prop
    extends Along heard e e' where
  run : Station.Run e.station ds e'.station

/-- **Dealings are had with the station**, and nothing else is done to it. A call that
waits for the answer to an introduction waited for it before, or that was made. -/
structure Passes (heard : Nat × Nat → Prop) (ds : List Dealing) (e e' : Engine) : Prop
    extends Deals heard ds e e' where
  introduced : ∀ p ∈ e'.posts, ∀ h q, p.task = .start h (some q) → p ∈ e.posts ∨ e'.Said q

variable {called : List (Nat × Handler)} {served : List Serving} {roll : List (Nat × String)}
variable {todo : List Job} {heard : Nat × Nat → Prop} {e e' e'' : Engine} {id i seq : Nat}
variable {c : Call} {handler : Handler} {job : Job} {ds ds' : List Dealing} {m : Moment}

theorem Along.said {p : Nat × Nat} (h : Along heard e e') (hsaid : e.Said p) : e'.Said p :=
  h.record.subset hsaid

theorem Aside.passes (h : Aside heard e e') : Passes heard [] e e' where
  toAlong := h.toAlong
  run := h.station ▸ .nil _
  introduced p hp _ _ _ := by
    have hposts : e'.posts = e.posts := congrArg Station.posts h.station
    exact .inl (hposts ▸ hp)

theorem Passes.of_step {d : Dealing} (h : Along heard e e')
    (hstep : Station.Step e.station d e'.station) (hquiet : ∀ i, d ≠ .connect i) :
    Passes heard [d] e e' :=
  ⟨⟨h, .cons hstep (.nil _)⟩, fun _ hp _ _ htask => .inl (hstep.introduced hquiet hp htask)⟩

theorem Deals.trans (h : Deals heard ds e e') (h' : Deals heard ds' e' e'') :
    Deals heard (ds ++ ds') e e'' :=
  ⟨h.toAlong.trans h'.toAlong, h.run.append h'.run⟩

theorem Passes.trans (h : Passes heard ds e e') (h' : Passes heard ds' e' e'') :
    Passes heard (ds ++ ds') e e'' :=
  ⟨h.toDeals.trans h'.toDeals, fun p hp handler q htask => by
    rcases h'.introduced p hp handler q htask with hp | hsaid
    · exact (h.introduced p hp handler q htask).imp_right h'.said
    · exact .inr hsaid⟩

/-- What goes on aside before makes no difference. -/
theorem Passes.after (h' : Passes heard ds e' e'') (h : Aside heard e e') :
    Passes heard ds e e'' :=
  h.passes.trans h'

theorem Passes.before (h : Passes heard ds e e') (h' : Aside heard e' e'') :
    Passes heard ds e e'' := by
  simpa using h.trans h'.passes

/-! ## The call at work -/

/-- Nothing else is at the post of a call. -/
theorem posts_at (ht : e.Tidy) (hcall : e.call? id = some c) {task : Task}
    (htask : c.stage.task? = some task) :
    e.posts = ⟨id, c.role, task⟩ ::ₘ (e.station.without id).posts := by
  have hposts := posts_of_call ht.single hcall
  simp only [Call.post?, htask] at hposts
  exact hposts

/-- A call comes to wait for something else. -/
theorem along_await (ht : e.Tidy) (hcall : e.call? id = some c) (stage : Stage)
    (hclaims : ∀ h, stage.handler? = some h → c.stage.handler? = some h)
    (happroved : stage.approved? = none) : Along heard e (e.await id stage) where
  tidy := ⟨by simpa [await] using ht.single, by simpa [await] using ht.made, ht.relays⟩
  record := List.prefix_refl _
  claims x hx h hclaim := by
    rcases Table.mem_update hx with hx | ⟨d, hd, rfl⟩
    · exact ⟨x.2, hx, rfl, hclaim⟩
    · obtain rfl : c = d := Option.some.inj
        (hcall.symm.trans ((Table.get?_eq_some_iff ht.single).mpr hd))
      exact ⟨c, hd, rfl, hclaims h hclaim⟩
  approved x hx p hp := by
    rcases Table.mem_update hx with hx | ⟨d, hd, rfl⟩
    · exact .inr ⟨x, hx, hp⟩
    · cases happroved.symm.trans hp

/-- It has the post of that. -/
theorem station_await (ht : e.Tidy) (hcall : e.call? id = some c) (stage : Stage) {task : Task}
    (htask : stage.task? = some task) : (e.await id stage).station =
      { e.station with posts := ⟨id, c.role, task⟩ ::ₘ (e.station.without id).posts } := by
  have hposts := posts_await ht.single hcall stage
  simp only [Call.post?, htask] at hposts
  simp only [station, hposts]
  rfl

theorem station_fail (heard : Nat × Nat → Prop) (ht : e.Tidy) (id : Nat) (h : Handler)
    (f : Failure) :
    Along heard e (e.fail id (.startup h) f) ∧ (e.fail id (.startup h) f).station =
      { e.station with locked := false, posts := (e.station.without id).posts } := by
  have hfree : Along heard e (e.mapDesk fun d => { d with locked := false }) :=
    .of_same ht rfl rfl rfl (List.prefix_refl _)
  have hwoken : Aside heard (e.mapDesk fun d => { d with locked := false }) e.unlock :=
    aside_wakeFirst hfree.tidy
  have hfinished : Frees heard id e.unlock (e.fail id (.startup h) f) :=
    frees_finish hwoken.tidy id (.error f)
  refine ⟨(hfree.trans hwoken.toAlong).trans hfinished.toAlong, ?_⟩
  rw [hfinished.station, hwoken.station]
  rfl

/-- **A start fails**, and the call that made it. -/
theorem passes_fail (ht : e.Tidy) (hcall : e.call? id = some c) {h : Handler}
    {introduced : Option (Nat × Nat)} (htask : c.stage.task? = some (.start h introduced))
    (f : Failure) :
    Passes heard [.fail id (introduced.map Prod.fst) f] e (e.fail id (.startup h) f) := by
  obtain ⟨halong, hstation⟩ := station_fail heard ht id h f
  refine .of_step halong ?_ nofun
  rw [hstation]
  exact .fail f (posts_at ht hcall htask)

/-- **A relay is put to use**, and the call that started it goes on. -/
theorem passes_ready (ht : e.Tidy) (hcall : e.call? id = some c) {h : Handler}
    (hne : h ≠ .shutdown) (htask : c.stage.task? = some (.start h (some (i, seq)))) :
    Passes heard [.ready i] e (e.ready id i h) := by
  have huse : Along heard e (((e.mapDesk fun d => { d with current := some i }).log i .info
      ("tsserver bridge ready (root " ++ rootText e.setup.root ++ ")")).mapDesk fun d =>
        { d with locked := false }) :=
    .of_same ht rfl rfl rfl (List.prefix_append ..)
  have hwoken : Aside heard _ _ := aside_wakeFirst huse.tidy
  have hserved : Frees heard _ _ _ := frees_serve hwoken.tidy hne id i
  have hstation : (e.ready id i h).station =
      { e.station with
        current := some i
        locked := false
        posts := (e.station.without id).posts } :=
    hserved.station.trans (congrArg (Station.without id) hwoken.station)
  refine .of_step ((huse.trans hwoken.toAlong).trans hserved.toAlong) ?_ nofun
  rw [hstation]
  exact .ready (posts_at ht hcall htask)

/-- A call that stops a process ends, or waits for what is none. -/
theorem passes_abandon (ht : e.Tidy) (hcall : e.call? id = some c)
    (htask : c.stage.task? = some (.stop i)) (h : Frees heard id e e') :
    Passes heard [.abandon i] e e' := by
  refine .of_step h.toAlong ?_ nofun
  rw [h.station]
  exact .abandon (posts_at ht hcall htask)

/-! ## Starts and ends -/

/-- **A process is launched**, by a call that may. -/
theorem passes_opening (h : e.Tends called served roll none (job :: todo)) (ht : e.Tidy)
    (hlaunching : e.launching? job = some (id, handler)) :
    Passes heard [.launch id] e ((e.leaveLine id).opening id handler) := by
  have hboards := h.boards hlaunching
  obtain ⟨c, hcall, hhandler, hplace⟩ := hboards.call
  have hidle : c.stage.task? = none := by
    rcases hplace with hplace | hplace
    all_goals
      revert hplace
      cases c.stage with
      | asking i seq a watch outcome next => cases next <;> nofun
      | _ => exact fun _ => rfl
  have hmanned : Along heard e ((e.leaveLine id).manned ⟨e.setup.root, false, 0, none⟩ e.relays) :=
    .of_same ht rfl rfl rfl (List.prefix_refl _)
  have hwaits : Along heard _ _ := along_await hmanned.tidy hcall
    (.process e.relays.length (.startup handler)) (fun _ hclaim => hclaim ▸ hhandler) rfl
  have hposts := congrArg Station.posts (without_of_idle ht.single hcall hidle)
  have hstation : ((e.leaveLine id).opening id handler).station =
      { e.station with
        locked := true
        launches := e.station.launches ++ [⟨e.setup.root, false, 0, none⟩]
        posts := ⟨id, c.role, .start handler none⟩ ::ₘ e.station.posts } := by
    rw [← hposts]
    exact station_await hmanned.tidy hcall _ rfl
  refine .of_step (hmanned.trans hwaits) ?_ nofun
  rw [hstation]
  exact .launch id c.role handler e.setup.root hboards.vacant hboards.unlocked

theorem along_connect (ht : e.Tidy) (refusal : Option Closure) :
    Along heard e (e.connect refusal) where
  tidy := ⟨ht.single, ht.made, fun r hr => by
    rcases List.mem_append.mp hr with hr | hr
    · exact ht.relays r hr
    · rw [List.mem_singleton.mp hr]
      exact ⟨rfl, nofun, rfl⟩⟩
  record := List.prefix_refl _
  claims x hx _ hclaim := ⟨x.2, hx, rfl, hclaim⟩
  approved x hx _ hp := .inr ⟨x, hx, hp⟩

/-- A process is up, and the call waits as for an answer of its relay. -/
theorem deals_connect (ht : e.Tidy) (hcall : e.call? id = some c)
    (htask : c.stage.task? = some (.start handler none))
    (hhandler : c.stage.handler? = some handler) {refusal : Option Closure}
    (hwritten : Aside heard (e.connect refusal) e') (hcall' : e'.call? id = some c)
    (hseq : seq ≠ 0) (a : Ask) (watch : Watch) (outcome : Option (Except Failure Json))
    (houtcome : ∀ body, outcome ≠ some (.ok body)) :
    Deals heard [.connect e.relays.length] e
        (e'.await id (.asking e.relays.length seq a watch outcome (.startup handler))) ∧
      (e'.await id (.asking e.relays.length seq a watch outcome (.startup handler))).posts =
        ⟨id, c.role, .start handler (some (e.relays.length, seq))⟩ ::ₘ
          (e.station.without id).posts := by
  have hwaits : Along heard _ _ := along_await hwritten.tidy hcall'
    (.asking e.relays.length seq a watch outcome (.startup handler)) (fun _ hclaim => hclaim ▸ hhandler) (by
      cases outcome with
      | none => rfl
      | some o =>
        cases o with
        | error f => rfl
        | ok body => exact absurd rfl (houtcome body))
  have hstarts : (Stage.asking e.relays.length seq a watch outcome (.startup handler)).task? =
      some (.start handler (some (e.relays.length, seq))) := by
    simp [Stage.task?, Continuation.task?, hseq]
  have hconnected : (e.connect refusal).station =
      { e.station with
        launches := e.station.launches.dropLast ++
          [⟨e.setup.root, true, 0, some e.relays.length⟩]
        made := e.relays.length + 1 } := by
    simp only [station, connect, List.length_append, List.length_singleton]
    rfl
  have hstation := station_await hwritten.tidy hcall' _ hstarts
  rw [hwritten.station, hconnected] at hstation
  refine ⟨⟨((along_connect ht refusal).trans hwritten.toAlong).trans hwaits,
    .cons ?_ (.nil _)⟩, congrArg Station.posts hstation⟩
  rw [hstation]
  exact .connect seq e.setup.root (posts_at ht hcall htask)

/-- **A process is up**, and the call waits for the answer to what its relay said. -/
theorem passes_connect (ht : e.Tidy) (hcall : e.call? id = some c)
    (htask : c.stage.task? = some (.start handler none))
    (hhandler : c.stage.handler? = some handler) {refusal : Option Closure}
    (hwritten : Aside heard (e.connect refusal) e') (hcall' : e'.call? id = some c)
    (hseq : seq ≠ 0) (hsaid : e'.Said (e.relays.length, seq)) (a : Ask) (watch : Watch)
    (outcome : Option (Except Failure Json)) (houtcome : ∀ body, outcome ≠ some (.ok body)) :
    Passes heard [.connect e.relays.length] e
      (e'.await id (.asking e.relays.length seq a watch outcome (.startup handler))) := by
  obtain ⟨hdeals, hposts⟩ :=
    deals_connect ht hcall htask hhandler hwritten hcall' hseq a watch outcome houtcome
  refine ⟨hdeals, fun p hp handler' q htask' => ?_⟩
  rcases Multiset.mem_cons.mp (hposts ▸ hp) with rfl | hp
  · obtain ⟨-, hq⟩ := Task.start.inj htask'
    exact .inr (Option.some.inj hq ▸ hsaid)
  · exact .inl (Multiset.mem_of_mem_filter hp)

theorem relay_connect (refusal : Option Closure) (e : Engine) :
    (e.connect refusal).relay e.relays.length =
      { Relay.new e.setup with link := ⟨0, [], refusal, none⟩ } := by
  simp [relay, connect]

/-- A relay that can write introduces itself. -/
theorem passes_welcomed (ht : e.Tidy) (hcall : e.call? id = some c)
    (htask : c.stage.task? = some (.start handler none))
    (hhandler : c.stage.handler? = some handler) :
    Passes heard [.connect e.relays.length] e ((e.connect none).ask id e.relays.length
      ((e.connect none).introduction e.relays.length) (.startup handler)) := by
  have hwrites := operate_ask_new (relay_connect none e) Service.configureName
    Query.introductionArguments
  have hwritten : Aside heard _ _ := aside_reticent (along_connect ht none : Along heard _ _).tidy
    e.relays.length (Relay.reticent_ask Service.configureName Query.introductionArguments)
  have hsaid : ((e.connect none).firstWritten e.setup e.relays.length Service.configureName
      Query.introductionArguments).Said (e.relays.length, 1) :=
    List.mem_append_right _ (List.mem_singleton_self _)
  rw [hwrites] at hwritten
  simp only [ask, introduction, hwrites] at hwritten ⊢
  generalize Ask.mk _ _ _ _ = a
  split
  · exact passes_connect ht hcall htask hhandler hwritten hcall Nat.one_ne_zero hsaid _ _ _ (by simp)
  · rename_i window _
    split
    · have hwithdrawn := hwritten.trans (aside_withdraw hwritten.tidy e.relays.length 1)
      have hwaits := passes_connect ht hcall htask hhandler hwithdrawn hcall Nat.one_ne_zero hsaid a
        (.ending .timedOut) (some (.error .cancelled)) (by simp)
      exact hwaits.before (aside_post hwaits.tidy _)
    · have hset := hwritten.trans
        (aside_agenda hwritten.tidy (e.agenda.setTimer window.nanos (.expire id 1)))
      exact passes_connect ht hcall htask hhandler hset hcall Nat.one_ne_zero hsaid _ _ _ (by simp)

/-- A relay that is refused fails its call. -/
theorem ask_refused (heard : Nat × Nat → Prop) (ht : e.Tidy) (id : Nat) (a : Ask)
    (handler : Handler) (cause : Closure) :
    ∃ e', Aside heard (e.connect (some cause)) e' ∧ e'.calls = e.calls ∧ e'.ended = e.ended ∧
      (e.connect (some cause)).ask id e.relays.length a (.startup handler) =
        e'.fail id (.startup handler) (.closed cause) := by
  have hwritten : Aside heard _ _ := aside_reticent
    (along_connect ht (some cause) : Along heard _ _).tidy e.relays.length
    (Relay.reticent_ask a.command a.arguments)
  have hasked : ∃ e', (e.connect (some cause)).operate e.relays.length
      (Relay.ask a.command a.arguments) = (e', .error (.closed cause)) ∧
        e'.calls = e.calls ∧ e'.ended = e.ended := by
    simp only [operate, relay_connect]
    exact ⟨_, rfl, rfl, rfl⟩
  obtain ⟨e', heq, hcalls, hended⟩ := hasked
  rw [heq] at hwritten
  exact ⟨e', hwritten, hcalls, hended, by simp only [ask, heq]⟩

/-- It fails as if it had waited for the answer. -/
theorem passes_refused (ht : e.Tidy) (hcall : e.call? id = some c)
    (htask : c.stage.task? = some (.start handler none))
    (hhandler : c.stage.handler? = some handler) (a : Ask) (cause : Closure) :
    Passes heard [.connect e.relays.length, .fail id (some e.relays.length) (.closed cause)] e
      ((e.connect (some cause)).ask id e.relays.length a (.startup handler)) := by
  obtain ⟨e', hwritten, hcalls, -, heq⟩ := ask_refused heard ht id a handler cause
  have hcall' : e'.call? id = some c := by rwa [call?, hcalls]
  obtain ⟨hwaits, -⟩ := deals_connect ht hcall htask hhandler hwritten hcall' Nat.one_ne_zero a
    .unbounded none (by simp)
  have hfails : Passes heard _ _ _ := passes_fail hwaits.tidy (call?_await hcall' _) rfl
    (.closed cause)
  obtain ⟨-, hstation⟩ := station_fail heard hwritten.tidy id handler (.closed cause)
  have hposts : e'.posts = e.posts := congrArg Station.posts hwritten.station
  rw [fail_await hcall'] at hfails
  rw [heq]
  refine ⟨hwaits.trans hfails.toDeals, fun p hp _ _ _ => .inl ?_⟩
  have hleft : (e'.fail id (.startup handler) (.closed cause)).posts =
      (e'.station.without id).posts := congrArg Station.posts hstation
  exact hposts ▸ Multiset.mem_of_mem_filter (hleft ▸ hp)

theorem waits_of_opener (hopener : e.opener? id = some handler) : ∃ c, e.call? id = some c ∧
    c.stage.task? = some (.start handler none) ∧ c.stage.handler? = some handler := by
  unfold opener? at hopener
  split at hopener
  · obtain rfl := Option.some.inj hopener
    exact ⟨_, ‹_›, rfl, rfl⟩
  · cases hopener

/-- **The process that a call waits for has come up**, or failed to. -/
theorem passes_opened (ht : e.Tidy) (id : Nat) (outcome : Except Failure (Option Closure)) :
    Passes heard (e.openedDealings id outcome) e (e.opened id outcome) := by
  cases hopener : e.opener? id with
  | none =>
    simp only [openedDealings, opened, hopener]
    exact (Aside.refl ht).passes
  | some handler =>
    obtain ⟨c, hcall, htask, hhandler⟩ := waits_of_opener hopener
    cases outcome with
    | error f =>
      simp only [openedDealings, opened, hopener]
      exact passes_fail ht hcall htask f
    | ok refusal =>
      cases refusal with
      | none =>
        simp only [openedDealings, opened, hopener]
        exact passes_welcomed ht hcall htask hhandler
      | some cause =>
        simp only [openedDealings, opened, hopener]
        exact passes_refused ht hcall htask hhandler _ cause

/-! ## Ends -/

/-- A relay that is let go tells nobody, whether its analysis server is asked to exit or
refuses to be. -/
theorem discreet_shutdownOver (refusal : Option Closure) (r : Relay) :
    Relay.Discreet r (r.shutdownOver refusal).1 := by
  cases refusal with
  | none => exact Relay.discreet_shutdown r
  | some cause =>
    simp only [Relay.shutdownOver]
    split
    · exact .refl r
    · exact Relay.discreet_takeSeq r

/-- **The analysis server is let go**, and may refuse to be asked to exit. -/
theorem passes_closing (ht : e.Tidy) (hleaves : e.LetsGo job id i) (refusal : Option Closure) :
    Passes heard (e.closingDealings i refusal) e (e.closing id i refusal) := by
  obtain ⟨c, hcall, hstage, -⟩ := hleaves.call
  have hidle : c.stage.task? = none := hstage ▸ rfl
  have hvacated : Along heard e (e.mapDesk fun d => { d with current := none }) :=
    .of_same ht rfl rfl rfl (List.prefix_refl _)
  have hasked : Aside heard _ _ := aside_discreet hvacated.tidy i (discreet_shutdownOver refusal)
  have haway := away_operate (e := e.mapDesk fun d => { d with current := none }) ht.single i
    (Relay.shutdownOver refusal)
  obtain ⟨c', hcall', -⟩ := haway.call? ht.single hcall
  have hidle' := idle_of_station (e := e.mapDesk fun d => { d with current := none }) ht.single
    hcall hidle hasked.station hcall'
  have hresult : ((e.mapDesk fun d => { d with current := none }).operate i
      (Relay.shutdownOver refusal)).2 = ((e.relay i).shutdownOver refusal).2 := rfl
  unfold closing closingDealings
  rw [← hresult]
  generalize (e.mapDesk fun d => { d with current := none }).operate i
    (Relay.shutdownOver refusal) = asked at hasked hcall' hidle'
  obtain ⟨e', result⟩ := asked
  have hwaits : Passes heard [.shut] e (e'.await id (.process i (.answer .nothing))) := by
    have hnobody : (Stage.process i (.answer .nothing)).handler? = none := rfl
    have halong : Along heard _ _ := along_await hasked.tidy hcall'
      (.process i (.answer .nothing)) (fun _ hclaim => absurd (hnobody.symm.trans hclaim) nofun) rfl
    refine .of_step ((hvacated.trans hasked.toAlong).trans halong) ?_ nofun
    have hstation := station_await hasked.tidy hcall' (.process i (.answer .nothing)) rfl
    rw [without_of_idle hasked.tidy.single hcall' hidle', hasked.station] at hstation
    rw [hstation]
    exact .letGo id c'.role hleaves.current
  cases result with
  | none => exact hwaits
  | some f =>
    -- the call ends as if it had waited for the process
    have hends : Passes heard _ _ _ := passes_abandon hwaits.tidy (call?_await hcall' _) rfl
      (frees_finish hwaits.tidy id (.error f))
    rw [finish_await hcall'] at hends
    exact hwaits.trans hends

/-- **The process that a call waits for has ended**, or could not be made to. -/
theorem passes_stopped (ht : e.Tidy) (id : Nat) (failure : Option Failure) :
    Passes heard (e.stoppedDealings id failure) e (e.stopped id failure) := by
  cases hcloser : e.closer? id with
  | none =>
    simp only [stoppedDealings, stopped, hcloser]
    exact (Aside.refl ht).passes
  | some i =>
    obtain ⟨c, hcall, htask⟩ : ∃ c, e.call? id = some c ∧ c.stage.task? = some (.stop i) := by
      unfold closer? at hcloser
      split at hcloser
      · obtain rfl := Option.some.inj hcloser
        exact ⟨_, ‹_›, rfl⟩
      · cases hcloser
    cases failure with
    | some f =>
      simp only [stoppedDealings, stopped, hcloser]
      exact passes_abandon ht hcall htask (frees_finish ht id _)
    | none =>
      simp only [stoppedDealings, stopped, hcloser]
      have hstopped : Along heard e
          (e.mapDesk fun d => { d with launches := d.launches.map (Launch.stop i) }) :=
        .of_same ht rfl rfl rfl (List.prefix_refl _)
      have hends : Frees heard _ _ _ := frees_finish hstopped.tidy id (.ok .nothing)
      refine .of_step (hstopped.trans hends.toAlong) ?_ (by simp)
      rw [hends.station]
      exact .stop (posts_at ht hcall htask)

/-! ## A call goes on -/

section Asking

variable {a : Ask} {watch : Watch} {outcome : Option (Except Failure Json)} {next : Continuation}

/-- A call that gives its command up stays at work on the same. -/
theorem aside_giveUp (ht : e.Tidy) (hcall : e.call? id = some c)
    (hstage : c.stage = .asking i seq a watch outcome next) (why : Ending) :
    Aside heard e (e.giveUp id i seq a why next) := by
  obtain ⟨role, stage, cancelled⟩ := c
  obtain rfl : stage = _ := hstage
  have hwithdrawn : Aside heard _ _ := aside_withdraw ht i seq
  have hwaits := hwithdrawn.trans (aside_update hwithdrawn.tidy id
    (f := fun c => { c with
      stage := .asking i seq a (.ending why) (some (.error .cancelled)) next, cancelled := false })
    fun d hd => by
      obtain rfl := Option.some.inj (hcall.symm.trans hd)
      exact Call.keeps_asking nofun)
  exact hwaits.trans (aside_post hwaits.tidy _)

/-- **A call that waits for a command is woken**: it goes on with its verdict, and
waits on if there is none. -/
theorem resume_of_verdict (heard : Nat × Nat → Prop) (ht : e.Tidy) (hcall : e.call? id = some c)
    (hstage : c.stage = .asking i seq a watch outcome next) :
    (c.verdict? = none ∧ Aside heard e (e.resume id)) ∨
      ∃ e' o, c.verdict? = some o ∧ Aside heard e e' ∧ e'.calls = e.calls ∧ e'.ended = e.ended ∧
        e.resume id = e'.proceed id i next o := by
  have hleave : Aside heard _ _ := aside_leave ht id i seq
  have hlate := fun text => hleave.trans (aside_log hleave.tidy i .warning text)
  have hgiveUp : ∀ why, Aside heard e (e.giveUp id i seq a why next) :=
    aside_giveUp ht hcall hstage
  obtain ⟨role, stage, cancelled⟩ := c
  obtain rfl : stage = _ := hstage
  simp only [resume, hcall, resumeAsking, Call.verdict?]
  have hwindowed : ∀ why,
      (outcome = none ∧ Aside heard e (e.wakeWindowed id i seq a outcome why next)) ∨
        ∃ e' o, outcome = some o ∧ Aside heard e e' ∧ e'.calls = e.calls ∧ e'.ended = e.ended ∧
          e.wakeWindowed id i seq a outcome why next = e'.proceed id i next o := by
    intro why
    cases outcome with
    | none => exact .inl ⟨rfl, hgiveUp why⟩
    | some o => exact .inr ⟨_, o, rfl, hleave, rfl, rfl, rfl⟩
  cases watch with
  | unbounded =>
    cases cancelled with
    | true => exact .inr ⟨_, _, rfl, hleave, rfl, rfl, rfl⟩
    | false =>
      cases outcome with
      | none => exact .inl ⟨rfl, .refl ht⟩
      | some o => exact .inr ⟨_, o, rfl, hleave, rfl, rfl, rfl⟩
  | windowed signal =>
    cases cancelled with
    | true => exact hwindowed .cancelled
    | false =>
      cases signal with
      | cancelled => exact hwindowed .cancelled
      | raised => exact hwindowed .timedOut
      | pending => exact .inl ⟨rfl, .refl ht⟩
  | ending why =>
    refine .inr ?_
    simp only [endAsking]
    generalize (if cancelled = true then Ending.cancelled else why) = ending
    cases ending with
    | cancelled => exact ⟨_, _, rfl, hleave, rfl, rfl, rfl⟩
    | timedOut => exact ⟨_, _, rfl, hlate _, rfl, rfl, rfl⟩

/-- A good verdict is a good answer. -/
theorem approved_of_verdict {body : Json}
    (hstage : c.stage = .asking i seq a watch outcome (.startup handler))
    (hverdict : c.verdict? = some (.ok body)) : c.stage.approved? = some (i, seq) := by
  obtain ⟨role, stage, cancelled⟩ := c
  obtain rfl : stage = _ := hstage
  have houtcome : outcome = some (.ok body) := by
    simp only [Call.verdict?] at hverdict
    split at hverdict
    · rename_i heq
      obtain ⟨-, -, -, -, rfl, -⟩ := Stage.asking.inj heq
      split at hverdict
      · cases hverdict
      · exact hverdict
    · rename_i heq
      obtain ⟨-, -, -, -, rfl, -⟩ := Stage.asking.inj heq
      split at hverdict
      · exact hverdict
      · cases hverdict
    · split at hverdict <;> cases hverdict
    · cases hverdict
  simp [Stage.approved?, Continuation.approved?, houtcome, Except.toOption]

/-- **A call that waits for a command goes on.** -/
theorem passes_asking (ht : e.Tidy) (hcall : e.call? id = some c)
    (hstage : c.stage = .asking i seq a watch outcome next)
    (hnumbered : ∀ p, c.stage.approved? = some p → p.2 ≠ 0)
    (hhandler : ∀ h, c.stage.handler? = some h → h ≠ .shutdown) :
    Passes heard (c.verdict?.bind fun o => next.dealing? id i seq o).toList e (e.resume id) := by
  rcases resume_of_verdict heard ht hcall hstage with
    ⟨hnone, haside⟩ | ⟨e', o, hverdict, haside, hcalls, -, heq⟩
  · simpa [hnone] using haside.passes
  · have hcall' : e'.call? id = some c := by rwa [call?, hcalls]
    have htask : c.stage.task? = next.task? i seq := hstage ▸ rfl
    rw [hverdict, Option.bind_some, heq]
    refine Passes.after ?_ haside
    cases next with
    | startup h =>
      cases o with
      | error f =>
        have hfails : Passes heard _ _ _ := passes_fail haside.tidy hcall' htask f
        have hrelay : (if seq = 0 then none else some (i, seq)).map Prod.fst =
            if seq = 0 then none else some i := by
          split <;> rfl
        rwa [hrelay] at hfails
      | ok body =>
        have hseq : seq ≠ 0 := hnumbered _ (approved_of_verdict hstage hverdict)
        rw [Continuation.task?, if_neg hseq] at htask
        exact passes_ready haside.tidy hcall' (hhandler h (hstage ▸ rfl)) htask
    | answer after =>
      have hfrees : Frees heard id e' (e'.proceed id i (.answer after) o) := by
        simp only [proceed]
        split
        · exact frees_finish haside.tidy id _
        · exact frees_ask haside.tidy id i _ _
      by_cases hseq : seq = 0
      · rw [Continuation.task?, if_pos hseq] at htask
        simpa [Continuation.dealing?, hseq] using passes_abandon haside.tidy hcall' htask hfrees
      · rw [Continuation.task?, if_neg hseq] at htask
        simpa [Continuation.dealing?, hseq] using (hfrees.of_idle haside.tidy hcall' htask).passes

end Asking

/-- **A handler that does not start the analysis server** is nothing to the station. -/
theorem aside_handle (ht : e.Tidy) (hcall : e.call? id = some c)
    (hstage : c.stage = .created (.handle handler)) (hne : handler ≠ .shutdown)
    (hstarts : e.desk.current = none → e.deskFree = false) :
    Aside heard e (e.handle id handler) := by
  have hidle : c.stage.task? = none := hstage ▸ rfl
  rw [handle_of_ne hne]
  cases hcurrent : e.desk.current with
  | some i => exact (frees_serve ht hne id i).of_idle ht hcall hidle
  | none =>
    have hjoined : Aside heard e (e.joinLine id) :=
      .of_same ht rfl rfl rfl (List.prefix_refl _) ⟨rfl, rfl, rfl⟩
    simp only [hstarts hcurrent]
    refine hjoined.trans (aside_update hjoined.tidy id fun d hd => ?_)
    obtain rfl := Option.some.inj (hcall.symm.trans hd)
    have hclaim : c.stage.handler? = some handler := hstage ▸ (seen_handle hne).2
    exact ⟨rfl, hidle.symm, fun _ hqueued => hclaim.trans hqueued, nofun⟩

theorem concluding?_created (hcall : e.call? id = some c) {work : Work}
    (hstage : c.stage = .created work) (hne : work ≠ .handle .shutdown) :
    e.concluding? (.resume id) = none := by
  cases work with
  | handle handler =>
    cases handler <;> first
      | exact absurd rfl hne
      | simp [concluding?, hcall, hstage]
  | _ => simp [concluding?, hcall, hstage]

/-- **A shutdown that finds nothing in use** is over. -/
theorem passes_idle (ht : e.Tidy) (hcall : e.call? id = some c) (hidle : c.stage.task? = none)
    (hcurrent : e.desk.current = none) :
    Passes heard [.shut] e (e.begin id (.handle .shutdown)) := by
  have hends : e.begin id (.handle .shutdown) = e.finish id (.ok .nothing) := by
    simp [begin, handle, letGo, hcurrent]
  have hfrees : Frees heard id e (e.finish id (.ok .nothing)) := frees_finish ht id _
  have hfinished := hfrees.of_idle ht hcall hidle
  rw [hends]
  refine .of_step hfinished.toAlong ?_ (by simp)
  rw [hfinished.station]
  exact .idle hcurrent

/-- A call that first runs, and starts or stops no process. -/
theorem passes_created (ht : e.Tidy) (hcall : e.call? id = some c) {work : Work}
    (hstage : c.stage = .created work) (hlaunching : e.launching? (.resume id) = none)
    (hleaving : e.leaving? (.resume id) = none) :
    Passes heard (e.concluding? (.resume id)).toList e (e.resume id) := by
  have hidle : ∀ {e'}, Frees heard id e e' → Aside heard e e' := fun hfrees =>
    hfrees.of_idle ht hcall (hstage ▸ rfl)
  cases hcancelled : c.cancelled with
  | true =>
    have hnone : e.concluding? (.resume id) = none := by
      cases work with
      | handle handler => cases handler <;> simp [concluding?, hcall, hstage, hcancelled]
      | _ => simp [concluding?, hcall, hstage]
    simp only [hnone, resume, hcall, hstage, hcancelled, if_true]
    exact (hidle (frees_finish ht id _)).passes
  | false =>
    have hbegins : e.resume id = e.begin id work := by
      simp [resume, hcall, hstage, hcancelled]
    rw [hbegins]
    cases work with
    | handle handler =>
      by_cases hne : handler = .shutdown
      · -- nothing is in use, or it were let go
        subst hne
        have hcurrent : e.desk.current = none := by
          simpa [leaving?, hcall, hstage, hcancelled] using hleaving
        have hshut : e.concluding? (.resume id) = some .shut := by
          simp [concluding?, hcall, hstage, hcancelled]
        rw [hshut]
        exact passes_idle ht hcall (hstage ▸ rfl) hcurrent
      · have hbusy : e.desk.current = none → e.deskFree = false := fun hcurrent => by
          simpa [launching?, hcall, hstage, hcancelled, hcurrent] using hlaunching
        rw [concluding?_created hcall hstage (by simpa using hne)]
        exact (aside_handle ht hcall hstage hne hbusy).passes
    | query i q =>
      rw [concluding?_created hcall hstage nofun]
      exact (hidle (frees_query ht id i q)).passes
    | check i uri =>
      rw [concluding?_created hcall hstage nofun]
      exact (hidle (frees_check ht id i uri)).passes
    | checkAll i =>
      rw [concluding?_created hcall hstage nofun]
      exact (hidle (frees_checkAll ht id i)).passes

/-- Whoever comes to the desk while the analysis server is in use is served, and makes room. -/
theorem aside_takeDesk (ht : e.Tidy) (hcall : e.call? id = some c) (hidle : c.stage.task? = none)
    (hne : handler ≠ .shutdown) (hcurrent : e.desk.current = some i) (hfree : e.desk.locked = false) :
    Aside heard e ((e.leaveLine id).takeDesk id handler) := by
  have hcurrent' : (e.leaveLine id).desk.current = some i := hcurrent
  have hunlocked : Aside heard e (((e.leaveLine id).mapDesk fun d =>
      { d with locked := true }).mapDesk fun d => { d with locked := false }) :=
    .of_same ht rfl rfl rfl (List.prefix_refl _) ⟨rfl, hfree.symm, rfl⟩
  have hwoken := hunlocked.trans (aside_wakeFirst hunlocked.tidy)
  simp only [takeDesk, hcurrent']
  exact (hwoken.frees (frees_serve hwoken.tidy hne id i)).of_idle ht hcall hidle

/-- A call in line that does not start the analysis server. -/
theorem aside_queued (ht : e.Tidy) (hcall : e.call? id = some c)
    (hstage : c.stage = .queued handler) (hne : handler ≠ .shutdown)
    (hfree : ∀ t ∈ e.desk.line, t.signal = .raised → e.desk.locked = false)
    (hlaunching : e.launching? (.resume id) = none) : Aside heard e (e.resume id) := by
  have hidle : c.stage.task? = none := hstage ▸ rfl
  have hleft : Aside heard e (e.leaveLine id) :=
    .of_same ht rfl rfl rfl (List.prefix_refl _) ⟨rfl, rfl, rfl⟩
  simp only [resume, hcall, hstage, resumeQueued]
  split
  · exact .refl ht
  · rename_i t hfound
    have hmem : t ∈ e.desk.line := List.mem_of_find?_eq_some hfound
    have hticket : t.call = id := by simpa using List.find?_some hfound
    split
    · refine Frees.of_idle ?_ ht hcall hidle
      change Frees heard id e
        ((if (e.leaveLine id).desk.locked then e.leaveLine id else (e.leaveLine id).wakeFirst).finish
          id (.error .cancelled))
      split
      · exact hleft.frees (frees_finish hleft.tidy id _)
      · have hwoken := hleft.trans (aside_wakeFirst hleft.tidy)
        exact hwoken.frees (frees_finish hwoken.tidy id _)
    · rename_i hkept
      split
      · rename_i hraised
        have hsignal : t.signal = .raised := by simpa using hraised
        have hstays : c.cancelled = false := by
          have hneither : c.cancelled = false ∧ t.signal ≠ .cancelled := by simpa using hkept
          exact hneither.1
        cases hcurrent : e.desk.current with
        | none =>
          -- its turn has come, so that it would
          have hwaits : ∀ t ∈ e.desk.line, t.call = id → t.signal ≠ .raised := by
            simpa [launching?, hcall, hstage, hstays, hcurrent] using hlaunching
          exact absurd hsignal (hwaits t hmem hticket)
        | some i => exact aside_takeDesk ht hcall hidle hne hcurrent (hfree t hmem hsignal)
      · exact .refl ht

/-- **A job that neither starts nor stops a process** is dealt with as it comes to. -/
theorem passes_concluding (h : e.Tends called served roll none (job :: todo)) (ht : e.Tidy)
    (hcalled : ∀ c ∈ called, c.2 ≠ .shutdown)
    (hnumbered : ∀ x ∈ e.calls, ∀ p, x.2.stage.approved? = some p → p.2 ≠ 0)
    (hlaunching : e.launching? job = none) (hleaving : e.leaving? job = none) :
    Passes heard (e.concluding? job).toList e (e.dispatch job) := by
  cases job with
  | passOn id seq => exact (aside_passOn ht id seq).passes
  | expire id seq => exact (aside_expire ht id seq).passes
  | fire i uri timer => exact (aside_fire ht i uri timer).passes
  | partEnded whole outcome => exact (aside_partEnded ht whole outcome).passes
  | checkEnded i outcome => exact (aside_checkEnded ht i outcome).passes
  | resume id =>
    change Passes heard _ e (e.resume id)
    cases hcall : e.call? id with
    | none =>
      have hnone : e.concluding? (.resume id) = none := by simp [concluding?, hcall]
      simp only [hnone, resume, hcall]
      exact (Aside.refl ht).passes
    | some c =>
      have hhandler : ∀ h, c.stage.handler? = some h → h ≠ .shutdown := fun handler hhandler =>
        hcalled _ (h.claims _ (mem_callers hcall) handler hhandler)
      have hwaits : ∀ e', (e' = e ∨ ∃ o, e' = e.finish id (done o)) → c.stage.task? = none →
          Aside heard e (if c.cancelled then e.finish id (.error .cancelled) else e') := by
        intro e' hthen hidle
        split
        · exact (frees_finish ht id _).of_idle ht hcall hidle
        · rcases hthen with rfl | ⟨o, rfl⟩
          · exact .refl ht
          · exact (frees_finish ht id _).of_idle ht hcall hidle
      cases hstage : c.stage with
      | created work => exact passes_created ht hcall hstage hlaunching hleaving
      | queued handler =>
        have hnone : e.concluding? (.resume id) = none := by simp [concluding?, hcall, hstage]
        rw [hnone]
        exact (aside_queued ht hcall hstage (hhandler handler (hstage ▸ rfl)) h.tended.free
          hlaunching).passes
      | asking i seq a watch outcome next =>
        have hconcludes : e.concluding? (.resume id) =
            c.verdict?.bind fun o => next.dealing? id i seq o := by
          simp only [concluding?, hcall, Option.bind_some, hstage]
        rw [hconcludes]
        exact passes_asking ht hcall hstage (hnumbered _ (mem_of_call? hcall)) hhandler
      | checking i outcome =>
        have hnone : e.concluding? (.resume id) = none := by simp [concluding?, hcall, hstage]
        simp only [hnone, resume, hcall, hstage]
        refine (hwaits _ ?_ (hstage ▸ rfl)).passes
        cases outcome with
        | some o => exact .inr ⟨o, rfl⟩
        | none => exact .inl rfl
      | gathering parts left outcome marked =>
        have hnone : e.concluding? (.resume id) = none := by simp [concluding?, hcall, hstage]
        simp only [hnone, resume, hcall, hstage]
        refine (hwaits _ ?_ (hstage ▸ rfl)).passes
        cases outcome with
        | some o => exact .inr ⟨o, rfl⟩
        | none => exact .inl rfl

/-! ## Every incident -/

/-- **A job is dealt with as it comes to**; a process that it starts or stops takes no
time. -/
theorem passes_job (h : e.Tends called served roll none (job :: todo)) (ht : e.Tidy)
    (hcalled : ∀ c ∈ called, c.2 ≠ .shutdown)
    (hnumbered : ∀ x ∈ e.calls, ∀ p, x.2.stage.approved? = some p → p.2 ≠ 0) :
    Passes heard (e.jobDealings job) e (e.dispatch job) := by
  cases hlaunching : e.launching? job with
  | some starts =>
    obtain ⟨id, handler⟩ := starts
    have hopening : Passes heard _ _ _ := passes_opening h ht hlaunching
    have hopened : Passes heard _ _ _ := passes_opened hopening.tidy id e.startOutcome
    simp only [jobDealings, hlaunching]
    rw [dispatch_of_launching h hlaunching]
    exact hopening.trans hopened
  | none =>
    cases hleaving : e.leaving? job with
    | some ends =>
      obtain ⟨id, i⟩ := ends
      have hleaves := letsGo_of_leaving hleaving
      have hunlimited := (ht.relay i).unlimited
      have hclosing : Passes heard _ _ _ := passes_closing ht hleaves none
      have hwilling : e.closingDealings i none = [.shut] := by
        simp [closingDealings, Relay.shutdownOver, shutdown_succeeds hunlimited]
      have hcloser : (e.closing id i none).closer? id = some i :=
        closer?_closing h.single hunlimited hleaves
      have hstopped : Passes heard _ _ _ := passes_stopped hclosing.tidy id none
      simp only [stoppedDealings, hcloser] at hstopped
      simp only [jobDealings, hlaunching, hleaving]
      rw [dispatch_of_leaving h.single hunlimited hleaving]
      rw [hwilling] at hclosing
      exact hclosing.trans hstopped
    | none =>
      simp only [jobDealings, hlaunching, hleaving]
      exact passes_concluding h ht hcalled hnumbered hlaunching hleaving

/-- The same of a job whose processes take their time. -/
theorem passes_slowly (h : e.Tends called served roll none (job :: todo)) (ht : e.Tidy)
    (hcalled : ∀ c ∈ called, c.2 ≠ .shutdown)
    (hnumbered : ∀ x ∈ e.calls, ∀ p, x.2.stage.approved? = some p → p.2 ≠ 0)
    (refusal : Option Closure) :
    Passes heard (e.slowDealings refusal job) e (e.dispatchSlowly refusal job) := by
  cases hlaunching : e.launching? job with
  | some starts =>
    simp only [slowDealings, dispatchSlowly, hlaunching]
    exact passes_opening h ht hlaunching
  | none =>
    cases hleaving : e.leaving? job with
    | some ends =>
      simp only [slowDealings, dispatchSlowly, hlaunching, hleaving]
      exact passes_closing ht (letsGo_of_leaving hleaving) refusal
    | none =>
      simp only [slowDealings, dispatchSlowly, hlaunching, hleaving]
      exact passes_concluding h ht hcalled hnumbered hlaunching hleaving

/-- A message is heard aside from the station. -/
theorem aside_receive (ht : e.Tidy) (i : Nat) (message : Json)
    (hheard : ∀ seq, seq ≠ 0 → Relay.Approves message seq → heard (i, seq)) :
    Aside heard e (e.operate i (Relay.receive message)).1 := by
  obtain ⟨hnumbered, hlimit, happroves⟩ := Relay.receive_approves (ht.relay i) message
  refine aside_operate ht i hnumbered hlimit fun seq body hmem => ?_
  obtain ⟨hseq, hgood⟩ := happroves seq body hmem
  exact hheard seq hseq hgood

/-- **Every incident comes to dealings with the station**, unless a handler is called:
that is nothing to it (`spawned`). -/
theorem passes_incident (h : m.engine.Tends called served roll none m.todo) (ht : m.engine.Tidy)
    (hcalled : ∀ c ∈ called, c.2 ≠ .shutdown)
    (hnumbered : ∀ x ∈ m.engine.calls, ∀ p, x.2.stage.approved? = some p → p.2 ≠ 0)
    (a : Incident) (hquiet : ∀ name handler, a ≠ .errand (.call name handler)) :
    Passes a.Hears (a.dealings m) m.engine (a.perform m).engine := by
  cases a with
  | opened id outcome => exact passes_opened ht id outcome
  | stopped id failure => exact passes_stopped ht id failure
  | slowly refusal =>
    obtain ⟨todo, e⟩ := m
    cases todo with
    | nil => exact (Aside.refl ht).passes
    | cons job rest => exact passes_slowly h ht hcalled hnumbered refusal
  | errand a =>
    cases a with
    | call name handler => exact absurd rfl (hquiet name handler)
    | receive i message =>
      exact (aside_receive ht i message fun _ hseq hgood => ⟨message, rfl, hseq, hgood⟩).passes
    | close i cause => exact (aside_disconnect ht i cause).passes
    | plain a =>
      cases a with
      | request name command arguments window => exact (aside_spawn ht rfl _).passes
      | notify command arguments =>
        exact (aside_discreet ht 0 (Relay.discreet_notify command arguments)).passes
      | receive message =>
        exact (aside_receive ht 0 message fun _ hseq hgood => ⟨message, rfl, hseq, hgood⟩).passes
      | close cause => exact (aside_disconnect ht 0 cause).passes
      | cancel id => exact (aside_cancel ht id).passes
      | pass time => exact (aside_agenda ht (m.engine.agenda.moveTo time)).passes
      | turn =>
        obtain ⟨todo, e⟩ := m
        cases todo with
        | nil => exact (aside_agenda ht { e.agenda.collectDue with ready := [] }).passes
        | cons job rest => exact (Aside.refl ht).passes
      | job =>
        obtain ⟨todo, e⟩ := m
        cases todo with
        | nil => exact (Aside.refl ht).passes
        | cons job rest => exact passes_job h ht hcalled hnumbered

end Engine

end LanguageRelay
