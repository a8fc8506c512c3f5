import LanguageRelay.Proofs.Desk.Arrival
/-!
# Processes that take their time

The analysis server is a process, and the engine takes its start and its end to
happen at once. Here they take time: a call that starts the process waits until
it is up, or has failed to come up, and one that lets it go waits until it has
ended. Meanwhile everything else goes on, the call may be cancelled, and what is
written may be refused. Whatever can happen then is an *incident*.

Nothing is added to the engine. A call that waits for a process is one that waits
for a command which was never written (`Stage.process`); a start that takes no
time is the engine's own (`dispatch_of_launching`), and so is an end
(`dispatch_of_leaving`). The hall before the desk stays tended (`tends_undergo`).
-/

namespace LanguageRelay

/-- What a call waits on that waits for a process. -/
def Ask.silent : Ask := ⟨"", .null, none, .nothing⟩

/-- A call waits for a process to come up, or to end. Commands are numbered from
one, so that this is none. -/
def Stage.process (i : Nat) (next : Continuation) : Stage :=
  .asking i 0 .silent .unbounded none next

/-- The relay is to end, over a connection that may refuse what is written. -/
def Relay.shutdownOver (refusal : Option Closure) (r : Relay) : Relay × Option Failure :=
  match refusal with
  | none => r.shutdown
  | some cause => if r.link.closed.isSome then (r, none) else (r.takeSeq, some (.closed cause))

namespace Engine

/-! ## Starts -/

/-- A call that may start the analysis server takes the desk, and waits for the
process. -/
def opening (id : Nat) (h : Handler) (e : Engine) : Engine :=
  (e.manned ⟨e.setup.root, false, 0, none⟩ e.relays).await id
    (.process e.relays.length (.startup h))

/-- The process that was launched last is up. There is a relay over its connection,
which may refuse what is written. -/
def connect (refusal : Option Closure) (e : Engine) : Engine :=
  { e with
    relays := e.relays ++ [{ Relay.new e.setup with link := ⟨0, [], refusal, none⟩ }]
    desk := { e.desk with
      launches := e.desk.launches.dropLast ++ [⟨e.setup.root, true, 0, some e.relays.length⟩] } }

/-- How a relay introduces itself. -/
def introduction (i : Nat) (e : Engine) : Ask :=
  ⟨Service.configureName, Query.introductionArguments, (e.relay i).setup.window, .nothing⟩

/-- The handler for which a call waits for a process to come up. -/
def opener? (id : Nat) (e : Engine) : Option Handler :=
  match e.call? id with
  | some ⟨_, .asking _ 0 _ _ none (.startup h), _⟩ => some h
  | _ => none

/-- A process has come up, or failed to. The relay over its connection introduces
itself. -/
def opened (id : Nat) (outcome : Except Failure (Option Closure)) (e : Engine) : Engine :=
  match e.opener? id, outcome with
  | none, _ => e
  | some h, .error f => e.fail id (.startup h) f
  | some h, .ok refusal =>
    let e' := e.connect refusal
    e'.ask id e.relays.length (e'.introduction e.relays.length) (.startup h)

/-- What becomes of the next start, if it takes no time. -/
def startOutcome (e : Engine) : Except Failure (Option Closure) :=
  match (e.desk.startFailures[e.desk.launches.length]?).join with
  | some reason => .error (.closed (.because reason))
  | none => .ok none

/-- The handler for which a job starts the analysis server, and its call. -/
def launching? (e : Engine) (job : Job) : Option (Nat × Handler) :=
  match job with
  | .resume id =>
    (e.call? id).bind fun c =>
      match c.stage with
      | .created (.handle .shutdown) => none
      | .created (.handle h) =>
        if !c.cancelled && e.desk.current.isNone && e.deskFree then some (id, h) else none
      | .queued h =>
        if !c.cancelled && e.desk.current.isNone &&
            e.desk.line.any fun t => t.call == id && t.signal == .raised then some (id, h)
        else none
      | _ => none
  | _ => none

/-! ## Ends -/

/-- The analysis server in use is let go: it is asked to exit, and the call waits
for the process to end. -/
def closing (id i : Nat) (refusal : Option Closure) (e : Engine) : Engine :=
  match (e.mapDesk fun d => { d with current := none }).operate i (Relay.shutdownOver refusal) with
  | (e, some f) => e.finish id (.error f)
  | (e, none) => e.await id (.process i (.answer .nothing))

/-- The relay whose process a call waits for to end. -/
def closer? (id : Nat) (e : Engine) : Option Nat :=
  match e.call? id with
  | some ⟨_, .asking i 0 _ _ none (.answer _), _⟩ => some i
  | _ => none

/-- A process has ended, or could not be made to. -/
def stopped (id : Nat) (failure : Option Failure) (e : Engine) : Engine :=
  match e.closer? id, failure with
  | none, _ => e
  | some _, some f => e.finish id (.error f)
  | some i, none =>
    (e.mapDesk fun d => { d with launches := d.launches.map (Launch.stop i) }).finish id
      (.ok .nothing)

/-- The call that lets the analysis server go by a job, and the relay in use. -/
def leaving? (e : Engine) (job : Job) : Option (Nat × Nat) :=
  match job with
  | .resume id =>
    (e.call? id).bind fun c =>
      match c.stage with
      | .created (.handle .shutdown) =>
        if c.cancelled then none else e.desk.current.map fun i => (id, i)
      | _ => none
  | _ => none

/-! ## Incidents -/

/-- Does a job, but a process that is started or stopped by it takes its time. -/
def dispatchSlowly (refusal : Option Closure) (job : Job) (e : Engine) : Engine :=
  match e.launching? job, e.leaving? job with
  | some (id, h), _ => (e.leaveLine id).opening id h
  | none, some (id, i) => e.closing id i refusal
  | none, none => e.dispatch job

/-- What can happen to a language server whose processes take their time. -/
inductive Incident where
  /-- Anything that happens at once. A process that is started or stopped by it takes
  no time. -/
  | errand (a : Errand)
  /-- The next job of a turn is done; a process that is started or stopped by it takes
  its time, and may refuse to be asked to exit. -/
  | slowly (refusal : Option Closure)
  /-- The process that a call waits for is up, and may refuse what is written, or has
  failed to come up. -/
  | opened (call : Nat) (outcome : Except Failure (Option Closure))
  /-- The process that a call waits for has ended, or could not be made to. -/
  | stopped (call : Nat) (failure : Option Failure)

namespace Incident

/-- What an incident does. -/
def perform (a : Incident) (m : Moment) : Moment :=
  match a with
  | errand a => a.perform m
  | slowly refusal =>
    match m.todo with
    | [] => m
    | job :: rest => ⟨rest, m.engine.dispatchSlowly refusal job⟩
  | opened id outcome => { m with engine := m.engine.opened id outcome }
  | stopped id failure => { m with engine := m.engine.stopped id failure }

/-- The job that is done by an incident. -/
def job? (a : Incident) (m : Moment) : Option Job :=
  match a with
  | errand (.plain .job) | slowly _ => m.todo.head?
  | _ => none

/-- The handler that is served by an incident: its call goes on with a relay. -/
def serving? (a : Incident) (m : Moment) : Option Serving := (a.job? m).bind m.engine.serving?

/-- The handler that is called by an incident. -/
def called? (a : Incident) (m : Moment) : Option (Nat × String × Handler) :=
  match a with
  | errand a => a.called? m
  | _ => none

end Incident

/-- Incidents one after another. -/
def undergo (incidents : List Incident) (m : Moment) : Moment :=
  incidents.foldl (fun m a => a.perform m) m

/-- The handlers that are called along a run, in order. -/
def callingsOf : List Incident → Moment → List (Nat × String × Handler)
  | [], _ => []
  | a :: rest, m => (a.called? m).toList ++ callingsOf rest (a.perform m)

/-- The handlers that are served along a run, in order. -/
def servingsOf : List Incident → Moment → List Serving
  | [], _ => []
  | a :: rest, m => (a.serving? m).toList ++ servingsOf rest (a.perform m)

theorem undergo_append (incidents more : List Incident) (m : Moment) :
    undergo (incidents ++ more) m = undergo more (undergo incidents m) :=
  List.foldl_append ..

/-- Errands are incidents. -/
theorem undergo_errands (errands : List Errand) (m : Moment) :
    undergo (errands.map .errand) m = attend errands m := by
  induction errands generalizing m with
  | nil => rfl
  | cons a rest ih => exact ih (a.perform m)

variable {called : List (Nat × Handler)} {served : List Serving} {roll : List (Nat × String)}
variable {todo : List Job} {e e' : Engine} {id i : Nat} {c : Call} {handler : Handler} {job : Job}
variable {m : Moment}

/-! ## A start that takes no time -/

/-- **A call may start the analysis server** by a job: it has the desk to itself, and
comes before all others. -/
structure Boards (called : List (Nat × Handler)) (served : List Serving)
    (roll : List (Nat × String)) (todo : List Job) (job : Job) (id : Nat) (handler : Handler)
    (e : Engine) : Prop where
  wakes : job = .resume id
  call : ∃ c, e.call? id = some c ∧ c.stage.handler? = some handler ∧
    (c.stage.place = .fresh ∨ c.stage.place = .inLine)
  vacant : e.desk.current = none
  unlocked : e.desk.locked = false
  unserved : e.serving? job = none
  launches : e.dispatch job =
    ((e.leaveLine id).mapDesk fun d => { d with locked := true }).launch id handler
  manned : ∃ role, ∀ l relays,
    ((e.leaveLine id).manned l relays).Departed called served roll id role handler todo
  foremost : ((e.leaveLine id).hall (some id) todo).Foremost served id

/-- A handler may that finds the desk free. -/
theorem Tends.boards_handler {c : Call} (h : e.Tends called served roll none (.resume id :: todo))
    (hcall : e.call? id = some c) (hstage : c.stage = .created (.handle handler))
    (hne : handler ≠ .shutdown) (hkept : c.cancelled = false) (hvacant : e.desk.current = none)
    (hfree : e.deskFree = true) : e.Boards called served roll todo (.resume id) id handler := by
  obtain ⟨hplace, hhandler⟩ : c.stage.place = .fresh ∧ c.stage.handler? = some handler :=
    hstage ▸ seen_handle hne
  have hstays := leaveLine_of_ticketless (h.ticketless hcall (by simp [hplace]))
  obtain ⟨hmanned, hforemost⟩ := h.boards_fresh hcall hstage hne hvacant hfree
  refine ⟨rfl, ⟨c, hcall, hhandler, .inl hplace⟩, hvacant, ?_, ?_, ?_, ⟨c.role, ?_⟩, ?_⟩
  · simp only [deskFree, Bool.and_eq_true] at hfree
    simpa using hfree.1
  · simp [serving?_created hne hcall hstage, hvacant]
  · rw [hstays]
    change e.resume id = _
    simp [resume, hcall, hstage, hkept, begin, handle_of_ne hne, hvacant, hfree, takeDesk]
  · rw [hstays]
    exact hmanned
  · rw [hstays]
    exact hforemost

/-- So may a call in line that was woken. -/
theorem Tends.boards_queued {c : Call} (h : e.Tends called served roll none (.resume id :: todo))
    (hcall : e.call? id = some c) (hstage : c.stage = .queued handler) (hkept : c.cancelled = false)
    (hvacant : e.desk.current = none) {t : Ticket} (hmem : t ∈ e.desk.line) (hticket : t.call = id)
    (hraised : t.signal = .raised) : e.Boards called served roll todo (.resume id) id handler := by
  have hhandler : c.stage.handler? = some handler := hstage ▸ rfl
  refine ⟨rfl, ⟨c, hcall, hhandler, .inr (hstage ▸ rfl)⟩, hvacant,
    h.tended.free t hmem hraised, by simp [serving?, hcall, hstage, hvacant], ?_,
    ⟨c.role, h.boards_turn hcall hhandler hmem hticket hraised hvacant⟩,
    h.foremost_turn hmem hticket hraised⟩
  -- the ticket that is found is the one that was raised
  obtain ⟨u, hfind⟩ : ∃ u, e.desk.line.find? (fun t => t.call = id) = some u :=
    Option.isSome_iff_exists.mp (List.find?_isSome.mpr ⟨t, hmem, by simpa using hticket⟩)
  obtain rfl : u = t := h.ticket_unique (List.mem_of_find?_eq_some hfind) hmem
    ((by simpa using List.find?_some hfind : u.call = id).trans hticket.symm)
  have hleft : (e.leaveLine id).desk.current = none := hvacant
  change e.resume id = _
  simp only [resume, hcall, hstage, resumeQueued, hfind, hkept, hraised]
  change (e.leaveLine id).takeDesk id handler = _
  simp only [takeDesk, hleft]

/-- That is when a job starts it. -/
theorem Tends.boards (h : e.Tends called served roll none (job :: todo))
    (hlaunching : e.launching? job = some (id, handler)) :
    e.Boards called served roll todo job id handler := by
  unfold launching? at hlaunching
  split at hlaunching
  · rename_i n
    obtain ⟨c, hcall, hc⟩ := Option.bind_eq_some_iff.mp hlaunching
    split at hc
    · cases hc
    · rename_i handler' hne hstage
      split at hc
      · rename_i hready
        obtain ⟨rfl, rfl⟩ := Prod.mk.inj (Option.some.inj hc)
        obtain ⟨⟨hkept, hvacant⟩, hfree⟩ : (c.cancelled = false ∧ e.desk.current = none) ∧
            e.deskFree = true := by simpa using hready
        exact h.boards_handler hcall hstage hne hkept hvacant hfree
      · cases hc
    · rename_i handler' hstage
      split at hc
      · rename_i hready
        obtain ⟨rfl, rfl⟩ := Prod.mk.inj (Option.some.inj hc)
        obtain ⟨⟨hkept, hvacant⟩, t, hmem, hticket, hraised⟩ :
            (c.cancelled = false ∧ e.desk.current = none) ∧
              ∃ t ∈ e.desk.line, t.call = n ∧ t.signal = .raised := by simpa using hready
        exact h.boards_queued hcall hstage hkept hvacant hmem hticket hraised
      · cases hc
    · cases hc
  · cases hlaunching

theorem call?_await (hcall : e.call? id = some c) (stage : Stage) :
    (e.await id stage).call? id = some { c with stage, cancelled := false } := by
  unfold call? at hcall
  simp [call?, await, Table.get?_update, hcall]

/-- What a call waits for does not matter to its end. -/
theorem finish_await (hcall : e.call? id = some c) (stage : Stage)
    (outcome : Except Failure Answer) :
    (e.await id stage).finish id outcome = e.finish id outcome := by
  have herased : { e.await id stage with calls := Table.erase id (e.await id stage).calls } =
      { e with calls := Table.erase id e.calls } := by
    simp only [await, Table.erase_update]
  simp only [finish, call?_await hcall, hcall, herased]

/-- Nor to the desk. -/
theorem unlock_await (id : Nat) (stage : Stage) (e : Engine) :
    (e.await id stage).unlock = e.unlock.await id stage := by
  have hline : ((e.await id stage).mapDesk fun d => { d with locked := false }).desk.line =
      (e.mapDesk fun d => { d with locked := false }).desk.line := rfl
  unfold unlock wakeFirst
  rw [hline]
  split <;> rfl

theorem fail_await (hcall : e.call? id = some c) (stage : Stage) (f : Failure) :
    (e.await id stage).fail id (.startup handler) f = e.fail id (.startup handler) f := by
  have hcall' : e.unlock.call? id = some c := by
    rw [call?, unlock, calls_wakeFirst]
    exact hcall
  change (e.await id stage).unlock.finish id (.error f) = e.unlock.finish id (.error f)
  rw [unlock_await, finish_await hcall']

theorem await_await (id : Nat) (stage stage' : Stage) (e : Engine) :
    (e.await id stage).await id stage' = e.await id stage' := by
  simp only [await, Table.update_update]

/-- A fresh relay has written its first command. -/
def firstWritten (setup : Setup) (i : Nat) (name : String) (arguments : Json) (e : Engine) :
    Engine :=
  { e.setRelay i { Relay.new setup with link := ⟨1, [⟨1, name, false⟩], none, none⟩ } with
    record := e.record ++ [(i, .sent ⟨1, name, arguments⟩)] }

theorem operate_ask_new {setup : Setup} (hrelay : e.relay i = Relay.new setup) (name : String)
    (arguments : Json) :
    e.operate i (Relay.ask name arguments) = (e.firstWritten setup i name arguments, .ok 1) := by
  simp only [operate, hrelay]
  rfl

/-- It does so whatever its call waited for. -/
theorem ask_await {setup : Setup} (hrelay : e.relay i = Relay.new setup) (stage : Stage) (a : Ask)
    (next : Continuation) : (e.await id stage).ask id i a next = e.ask id i a next := by
  have hrelay' : (e.await id stage).relay i = Relay.new setup := hrelay
  have hwritten : (e.await id stage).firstWritten setup i a.command a.arguments =
      (e.firstWritten setup i a.command a.arguments).await id stage := rfl
  simp only [ask, operate_ask_new hrelay, operate_ask_new hrelay', hwritten]
  generalize e.firstWritten setup i a.command a.arguments = w
  split
  · exact await_await ..
  · split
    · exact congrArg (post _) (await_await id stage _ (w.mapRelay i (Relay.withdraw 1)))
    · exact await_await id stage _ { w with agenda := w.agenda.setTimer _ (.expire id 1) }

theorem connect_opening (id : Nat) (handler : Handler) (e : Engine) :
    (e.opening id handler).connect none =
      (e.manned ⟨e.setup.root, true, 0, some e.relays.length⟩
        (e.relays ++ [Relay.new e.setup])).await id
          (.process e.relays.length (.startup handler)) := by
  simp only [opening, connect, manned, await, List.dropLast_concat]
  rfl

/-- **A start that takes no time** is the engine's own. -/
theorem dispatch_of_launching (h : e.Tends called served roll none (job :: todo))
    (hlaunching : e.launching? job = some (id, handler)) :
    e.dispatch job = ((e.leaveLine id).opening id handler).opened id e.startOutcome := by
  have hboards := h.boards hlaunching
  obtain ⟨c, hcall, -⟩ := hboards.call
  have hopener : ((e.leaveLine id).opening id handler).opener? id = some handler := by
    have hcall' : ((e.leaveLine id).opening id handler).call? id = _ :=
      call?_await (e := (e.leaveLine id).manned _ _) hcall _
    simp only [opener?, hcall', Stage.process]
  rw [hboards.launches, launch_eq, startOutcome]
  change (match (e.desk.startFailures[e.desk.launches.length]?).join with
    | some reason => _ | none => _) = _
  cases (e.desk.startFailures[e.desk.launches.length]?).join with
  | some reason =>
    simp only [opened, hopener]
    exact (fail_await (e := (e.leaveLine id).manned _ _) hcall _ _).symm
  | none =>
    have hnew : ((e.leaveLine id).manned ⟨e.setup.root, true, 0, some e.relays.length⟩
        (e.relays ++ [Relay.new e.setup])).relay e.relays.length = Relay.new e.setup := by
      simp [relay, manned]
    have hconnect := connect_opening id handler (e.leaveLine id)
    simp only [opened, hopener]
    rw [hconnect]
    exact (ask_await hnew _ _ _).symm

/-! ## An end that takes no time -/

theorem shutdown_succeeds {r : Relay} (hunlimited : r.link.limit = none) :
    r.shutdown.2 = none := by
  unfold Relay.shutdown
  split
  · rfl
  · rename_i hopen
    have hnone : r.link.closed = none := by simpa using hopen
    rw [Relay.notify_of_taken ((Link.refusal?_eq_closed hunlimited).trans hnone)]

/-- **The analysis server is let go by a job**: it is in use, and a shutdown runs. -/
structure LetsGo (job : Job) (id i : Nat) (e : Engine) : Prop where
  wakes : job = .resume id
  call : ∃ c, e.call? id = some c ∧ c.stage = .created (.handle .shutdown) ∧ c.cancelled = false
  current : e.desk.current = some i

theorem letsGo_of_leaving (hleaving : e.leaving? job = some (id, i)) : e.LetsGo job id i := by
  unfold leaving? at hleaving
  split at hleaving
  · obtain ⟨c, hcall, hc⟩ := Option.bind_eq_some_iff.mp hleaving
    split at hc
    · rename_i hstage
      split at hc
      · cases hc
      · rename_i hkept
        obtain ⟨j, hcurrent, heq⟩ := Option.map_eq_some_iff.mp hc
        obtain ⟨rfl, rfl⟩ := Prod.mk.inj heq
        exact ⟨rfl, ⟨c, hcall, hstage, Bool.eq_false_of_not_eq_true hkept⟩, hcurrent⟩
    · cases hc
  · cases hleaving

theorem LetsGo.dispatch_eq (h : e.LetsGo job id i) : e.dispatch job = e.letGo id := by
  obtain ⟨c, hcall, hstage, hkept⟩ := h.call
  rw [h.wakes]
  simp [dispatch, resume, hcall, hstage, hkept, begin, handle]

/-- Asked to exit over a connection that refuses nothing, the call waits. -/
theorem closing_willing (hsingle : (Table.keys e.calls).Nodup)
    (hunlimited : (e.relay i).link.limit = none) (hleaves : e.LetsGo job id i) :
    ∃ e' c', (e.mapDesk fun d => { d with current := none }).operate i Relay.shutdown = (e', none) ∧
      e'.call? id = some c' ∧ e.closing id i none = e'.await id (.process i (.answer .nothing)) := by
  obtain ⟨c, hcall, -⟩ := hleaves.call
  have haway := away_operate (e := e.mapDesk fun d => { d with current := none }) hsingle i
    Relay.shutdown
  have hended : ((e.mapDesk fun d => { d with current := none }).operate i Relay.shutdown).2 =
      none := shutdown_succeeds hunlimited
  have hwilling : Relay.shutdownOver none = Relay.shutdown := rfl
  simp only [closing, hwilling]
  generalize (e.mapDesk fun d => { d with current := none }).operate i Relay.shutdown = asked at *
  obtain ⟨e', failure⟩ := asked
  obtain rfl : failure = none := hended
  obtain ⟨c', hcall', -⟩ := haway.call? hsingle hcall
  exact ⟨e', c', rfl, hcall', rfl⟩

theorem closer?_closing (hsingle : (Table.keys e.calls).Nodup)
    (hunlimited : (e.relay i).link.limit = none) (hleaves : e.LetsGo job id i) :
    (e.closing id i none).closer? id = some i := by
  obtain ⟨e', c', -, hcall', hwaits⟩ := closing_willing hsingle hunlimited hleaves
  simp only [hwaits, closer?, call?_await hcall', Stage.process]

/-- **An end that takes no time** is the engine's own. -/
theorem dispatch_of_leaving (hsingle : (Table.keys e.calls).Nodup)
    (hunlimited : (e.relay i).link.limit = none) (hleaving : e.leaving? job = some (id, i)) :
    e.dispatch job = (e.closing id i none).stopped id none := by
  have hleaves := letsGo_of_leaving hleaving
  have hcloser := closer?_closing hsingle hunlimited hleaves
  obtain ⟨e', c', hasked, hcall', hwaits⟩ := closing_willing hsingle hunlimited hleaves
  rw [hleaves.dispatch_eq]
  simp only [letGo, hleaves.current, hasked, stopped, hcloser]
  rw [hwaits]
  exact (finish_await (e := e'.mapDesk _) hcall' _ _).symm

/-! ## The hall stays tended -/

namespace Tends

/-- A job for a call that has begun disturbs nobody. -/
theorem nudged (h : e.Tends called served roll none todo) (hcall : e.call? id = some c)
    (hplace : c.stage.place ≠ .fresh) : e.Tends called served roll none (.resume id :: todo) := by
  have hbegun : ∀ d ∈ (e.hall none todo).callers, d.place = .fresh → d.number ≠ id := by
    rintro d hd hfresh rfl
    rw [eq_of_number h.single hd.1 (mem_callers hcall) rfl] at hfresh
    exact hplace hfresh
  refine ⟨h.single, h.claims, h.granted, h.listed, h.outside, { h.tended with
    known := fun n hn => ?_
    due := fun d hd hfresh => List.mem_cons_of_mem _ (h.tended.due d hd hfresh)
    turns := ?_
    woken := fun t ht hsignal => List.mem_cons_of_mem _ (h.tended.woken t ht hsignal) }, h.vacant⟩
  · rcases List.mem_cons.mp hn with heq | hn
    · exact Job.resume.inj heq ▸ h.tended.made _ (mem_hall hcall)
    · exact h.tended.known n hn
  · refine List.pairwise_cons.mpr ⟨fun job _ d hd _ _ hfresh _ hresume => ?_, h.tended.turns⟩
    exact absurd (Job.resume.inj hresume).symm (hbegun d hd hfresh)

/-- **A process is started**, and its call waits for it. -/
theorem opening (h : e.Tends called served roll none (job :: todo))
    (hlaunching : e.launching? job = some (id, handler)) :
    ((e.leaveLine id).opening id handler).Tends called served roll none todo := by
  have hboards := h.boards hlaunching
  obtain ⟨role, hmanned⟩ := hboards.manned
  obtain ⟨hserved, hfresh, hline, hstarting⟩ := hboards.foremost
  exact (hmanned _ _).starts ⟨hserved, hfresh, hline, hstarting⟩ rfl hboards.vacant rfl rfl

/-- A call that waits for a process to come up has the desk. -/
theorem opener (h : e.Tends called served roll none todo) (hopener : e.opener? id = some handler) :
    ∃ c, e.call? id = some c ∧
      e.Departed called served roll id c.role handler todo ∧
      (e.hall (some id) todo).Foremost served id ∧ e.desk.locked = true ∧ e.desk.current = none := by
  unfold opener? at hopener
  split at hopener
  · rename_i role i a watch handler' cancelled hcall
    obtain rfl : handler' = handler := Option.some.inj hopener
    have hnudged := h.nudged hcall nofun
    have hforemost := foremost_leaveLine
      (hnudged.tended.starting_departs (mem_hall hcall) rfl rfl)
    rw [leaveLine_of_ticketless (h.ticketless hcall nofun)] at hforemost
    exact ⟨_, hcall, hnudged.departs hcall rfl nofun, hforemost,
      h.tended.busy _ (mem_hall hcall) rfl⟩
  · cases hopener

/-- **It has come up**, or failed to. -/
theorem opened (h : e.Tends called served roll none todo) (id : Nat)
    (outcome : Except Failure (Option Closure)) :
    (e.opened id outcome).Tends called served roll none todo := by
  unfold Engine.opened
  split
  · exact h
  · obtain ⟨c, -, hleaves, hforemost, hlocked, hcurrent⟩ := h.opener ‹_›
    exact hleaves.fails_startup hforemost.starting hlocked hcurrent _
  · obtain ⟨c, -, hleaves, hforemost, hlocked, hcurrent⟩ := h.opener ‹_›
    rename_i refusal _
    have hlaunched : 1 ≤ e.desk.launches.length := h.tended.manned hlocked
    have haway : Away e (e.connect refusal) :=
      .of_same rfl rfl ⟨rfl, rfl, rfl, by simp [connect, Nat.sub_add_cancel hlaunched]⟩ rfl rfl
    exact (hleaves.away haway).introduces (haway.foremost hforemost) hlocked hcurrent _ _

/-- **The analysis server is let go**, and the call waits for its process to end. -/
theorem closing (h : e.Tends called served roll none (job :: todo)) (hleaves : e.LetsGo job id i)
    (refusal : Option Closure) :
    (e.closing id i refusal).Tends called served roll none todo := by
  obtain ⟨c, hcall, hstage, -⟩ := hleaves.call
  obtain rfl := hleaves.wakes
  have hgone := h.departs_beyond hcall (hstage ▸ rfl)
  have hvacated : (e.mapDesk fun d => { d with current := none }).Tends called served roll
      (some id) todo :=
    ⟨hgone.single, hgone.claims, hgone.granted, hgone.listed, hgone.outside, hgone.tended.vacated,
      hgone.vacant⟩
  unfold Engine.closing
  split
  · exact (hvacated.operate ‹_›).finish _
  · exact (hvacated.operate ‹_›).await rfl

/-- **It has ended**, or could not be made to. -/
theorem stopped (h : e.Tends called served roll none todo) (id : Nat) (failure : Option Failure) :
    (e.stopped id failure).Tends called served roll none todo := by
  have hgone : ∀ {i}, e.closer? id = some i → e.Tends called served roll (some id) todo := by
    intro i hcloser
    unfold closer? at hcloser
    split at hcloser
    · rename_i hcall
      have hnudged := h.nudged hcall nofun
      exact hnudged.departs_beyond hcall rfl
    · cases hcloser
  unfold Engine.stopped
  split
  · exact h
  · exact (hgone ‹_›).finish _
  · refine ((hgone ‹_›).away ?_).finish _
    exact .of_same rfl rfl ⟨rfl, rfl, rfl, List.length_map _⟩ rfl rfl

end Tends

/-- A job that lets the analysis server go serves nobody. -/
theorem serving?_of_letsGo (hleaves : e.LetsGo job id i) : e.serving? job = none := by
  obtain ⟨c, hcall, hstage, -⟩ := hleaves.call
  simp [hleaves.wakes, serving?, hcall, hstage]

/-- **Every incident leaves the hall tended**, with who is called and served by it. -/
theorem tends_incident (h : m.engine.Tends called served roll none m.todo) (a : Incident) :
    (a.perform m).engine.Tends (called ++ (a.called? m).toList.map fun c => (c.1, c.2.2))
      (served ++ (a.serving? m).toList) (roll ++ (a.called? m).toList.map fun c => (c.1, c.2.1))
      none (a.perform m).todo := by
  have hnobody : ∀ {e todo served}, Tends called served roll none todo e →
      Tends (called ++ []) served (roll ++ []) none todo e := by simp
  have hunserved : ∀ {e todo}, Tends called served roll none todo e →
      Tends (called ++ []) (served ++ []) (roll ++ []) none todo e := by simp
  cases a with
  | errand a =>
    have hserving : (Incident.errand a).serving? m = a.serving? m := by
      cases a with
      | plain a => cases a <;> rfl
      | _ => rfl
    rw [hserving]
    exact tends_perform h a
  | opened id outcome => exact hunserved (h.opened id outcome)
  | stopped id failure => exact hunserved (h.stopped id failure)
  | slowly refusal =>
    obtain ⟨todo, e⟩ := m
    cases todo with
    | nil => exact hunserved h
    | cons job rest =>
      change Tends (called ++ []) (served ++ (e.serving? job).toList) (roll ++ []) none rest
        (e.dispatchSlowly refusal job)
      unfold dispatchSlowly
      split
      · rw [(h.boards ‹_›).unserved]
        exact hunserved (h.opening ‹_›)
      · have hleaves := letsGo_of_leaving ‹_›
        rw [serving?_of_letsGo hleaves]
        exact hunserved (h.closing hleaves refusal)
      · exact hnobody (tends_dispatch h)

/-- So does a run. -/
theorem tends_undergo (incidents : List Incident)
    (h : m.engine.Tends called served roll none m.todo) :
    (undergo incidents m).engine.Tends
      (called ++ (callingsOf incidents m).map fun c => (c.1, c.2.2))
      (served ++ servingsOf incidents m)
      (roll ++ (callingsOf incidents m).map fun c => (c.1, c.2.1)) none
      (undergo incidents m).todo := by
  induction incidents generalizing m called served roll with
  | nil => simpa [servingsOf, callingsOf, undergo] using h
  | cons a rest ih =>
    have hrest := ih (tends_incident h a)
    simpa [servingsOf, callingsOf, undergo] using hrest

end Engine

end LanguageRelay
