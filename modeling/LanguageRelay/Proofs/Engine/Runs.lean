import LanguageRelay.Proofs.Engine.Running
/-!
# Runs of requests

Every action of a run over one relay without documents is one step of the
ledger (`step_perform`), labelled with what comes by it for each request
(`Moment.event`). What comes for a request along a run is its *trace*, and the
fate of the request is what its trace makes of it (`stands_act`).
-/

namespace LanguageRelay

namespace Engine

namespace Moment

/-- The ledger in the middle of a turn. -/
def ledger (link : Link) (m : Moment) : Ledger := m.engine.ledger link m.todo

/-- What comes for a request by an action. -/
def event (a : Action) (m : Moment) (q : Written) : Option Event :=
  match a with
  | .receive message => (Tidings.ofMessage message q.seq q.ask.command).map .heard
  | .close cause => (Tidings.ofClosure cause q.seq q.ask.command).map .heard
  | .cancel id => only id .cancelled q
  | .job => m.todo.head?.bind fun job => jobEvent job m.engine q
  | _ => none

/-- What comes for a request along a run, in order. -/
def trace (q : Written) : List Action → Moment → List Event
  | [], _ => []
  | a :: rest, m => (m.event a q).toList ++ trace q rest (a.perform m)

end Moment

/-- The outcome that a request hears by an action. -/
def Action.outcome? (q : Written) : Action → Option (Except Failure Json)
  | .receive message => Tidings.ofMessage message q.seq q.ask.command
  | .close cause => Tidings.ofClosure cause q.seq q.ask.command
  | _ => none

variable {link link' : Link} {todo : List Job} {e : Engine} {m : Moment} {q : Written}
variable {fate : Fate} {due : Int}

/-! ## Actions are steps -/

/-- The name of the request that is made. -/
def Action.requested? : Action → Option String
  | .request name _ _ _ => some name
  | _ => none

/-- **What the relay does on its connection is heard.** -/
theorem step_operate {α : Type} (f : Relay → Relay × α) {tidings : Tidings} {fx : List Effect}
    (hplain : e.Plain link) (hvalid : (e.ledger link todo).Valid)
    (hf : (f (.upon e.setup link)).1 = { Relay.upon e.setup link' with outbox := fx })
    (hbrings : Relay.Brings tidings link link' fx) :
    (e.operate 0 f).1.Plain link' ∧
      (e.ledger link todo).Step none (fun q => (tidings q.seq q.ask.command).map .heard)
        ((e.operate 0 f).1.ledger link' todo) := by
  have hoperate : (e.operate 0 f).1 =
      fx.foldl (deliver 0) (e.setRelay 0 (.upon e.setup link')) := by
    change (f (e.relay 0)).1.outbox.foldl (deliver 0)
      (e.setRelay 0 { (f (e.relay 0)).1 with outbox := [] }) = _
    rw [hplain.relay, hf]
    rfl
  have hdelivered : Delivered fx (e.setRelay 0 (.upon e.setup link')) (e.operate 0 f).1 :=
    hoperate ▸ delivered_effects hvalid.apart hbrings.ofLink
  obtain ⟨js, hready, hwakes, hwoken⟩ := hdelivered.ready
  have hrelays : e.relays = [.upon e.setup link] := hplain
  constructor
  · simp [Plain, hdelivered.relays, hdelivered.setup, setRelay, hrelays]
  · have hstep := Ledger.Step.heard (l := e.ledger link todo) hbrings
      (hdelivered.calls ▸ hwakes) hwoken
    have hledger : (e.operate 0 f).1.ledger link' todo =
        { e.ledger link todo with
          link := link'
          calls := e.calls.map fun x => (x.1, fx.foldl Call.learn x.2)
          jobs := todo ++ e.agenda.ready ++ js } := by
      simp [ledger, hdelivered.setup, hdelivered.calls, hdelivered.lastCall, hdelivered.now,
        hdelivered.timers, hdelivered.ended, hready, setRelay]
    rw [hledger]
    exact hstep

/-- Making a call is a step. -/
theorem step_spawn (hvalid : (e.ledger link todo).Valid) (name command : String)
    (arguments : Json) (window : Option Duration) :
    (e.ledger link todo).Step (some name) (fun _ => none)
      ((e.spawn (.client name) (.query 0 (.command command arguments window))).ledger link
        todo) := by
  have hfresh : e.lastCall + 1 ∉ Table.keys e.calls := next_not_mem_keys hvalid.made
  have hstep := Ledger.Step.made (l := e.ledger link todo) name command arguments window
  simpa [ledger, spawn, post, Agenda.post, Table.put_of_not_mem _ hfresh, Call.fresh] using hstep

/-- Beginning a turn is a step. -/
theorem step_beginTurn (e : Engine) :
    (e.ledger link []).Step none (fun _ => none)
      ((Moment.beginTurn e).engine.ledger link (Moment.beginTurn e).todo) := by
  have hdue : ∀ t, t ∈ e.agenda.due ↔ t ∈ e.agenda.timers ∧ t.due ≤ e.agenda.now := by
    simp [Agenda.due, List.mem_mergeSort]
  have hstep := Ledger.Step.fell (l := e.ledger link []) e.agenda.due
    (e.agenda.timers.filter fun t => !(t.due ≤ e.agenda.now)) (fun t ht => (hdue t).mp ht)
    List.filter_sublist fun t ht => ?_
  · simpa [ledger, Moment.beginTurn, Agenda.collectDue] using hstep
  · by_cases hle : t.due ≤ e.agenda.now
    · exact .inl ((hdue t).mpr ⟨ht, hle⟩)
    · exact .inr (List.mem_filter.mpr ⟨ht, by simp [hle]⟩)

/-- **Every action is a step.** -/
theorem step_perform (hplain : m.engine.Plain link) (hvalid : (m.ledger link).Valid) (a : Action) :
    ∃ link', (a.perform m).engine.Plain link' ∧
      (m.ledger link).Step a.requested? (m.event a) ((a.perform m).ledger link') := by
  have hsame : (m.ledger link).Step none (fun _ => none) (m.ledger link) := .passed (Int.le_refl _)
  cases a with
  | request name command arguments window =>
    exact ⟨link, hplain, step_spawn hvalid name command arguments window⟩
  | notify command arguments =>
    obtain ⟨link', fx, hf, hbrings⟩ :=
      Relay.notify_upon m.engine.setup hvalid.link.shut command arguments
    exact ⟨link', step_operate (Relay.notify command arguments) hplain hvalid hf hbrings⟩
  | receive message =>
    obtain ⟨link', fx, hf, hbrings, -⟩ :=
      Relay.receive_upon m.engine.setup hvalid.link.shut hvalid.link.listed message
    exact ⟨link', step_operate (Relay.receive message) hplain hvalid (congrArg Prod.fst hf) hbrings⟩
  | close cause =>
    obtain ⟨link', fx, hf, hbrings⟩ :=
      Relay.disconnect_upon m.engine.setup hvalid.link.shut cause
    exact ⟨link', step_operate (fun r => (r.disconnect cause, ())) hplain hvalid hf hbrings⟩
  | cancel id => exact step_cancel hplain hvalid id
  | pass time => exact ⟨link, hplain, .passed (Int.le_max_left ..)⟩
  | turn =>
    obtain ⟨todo, e⟩ := m
    cases todo with
    | nil => exact ⟨link, hplain, step_beginTurn e⟩
    | cons job rest => exact ⟨link, hplain, hsame⟩
  | job =>
    obtain ⟨todo, e⟩ := m
    cases todo with
    | nil => exact ⟨link, hplain, hsame⟩
    | cons job rest => exact step_dispatch hplain hvalid

/-! ## Runs -/

namespace Moment

/-- The connection. -/
def connection (m : Moment) : Link := (m.engine.relay 0).link

/-- The ledger of requests. -/
def requests (m : Moment) : Ledger := m.ledger m.connection

/-- The engine has one relay without documents, and its ledger is in order. -/
structure InOrder (m : Moment) : Prop where
  plain : m.engine.Plain m.connection
  valid : m.requests.Valid

end Moment

theorem connection_eq (h : m.engine.Plain link) : m.connection = link := by
  rw [Moment.connection, h.relay]
  rfl

/-- A fresh engine is in order. -/
theorem inOrder_new (setup : Setup) : (Moment.new setup).InOrder where
  plain := rfl
  valid := Ledger.valid_empty setup

/-- **An action is a step, and keeps the engine in order.** -/
theorem step_requests (h : m.InOrder) (a : Action) :
    (a.perform m).InOrder ∧ m.requests.Step a.requested? (m.event a) (a.perform m).requests := by
  obtain ⟨link', hplain, hstep⟩ := step_perform h.plain h.valid a
  have hlink := connection_eq hplain
  have hrequests : (a.perform m).requests = (a.perform m).ledger link' := by
    rw [Moment.requests, hlink]
  exact ⟨⟨hlink.symm ▸ hplain, hrequests ▸ Ledger.valid_step hstep h.valid⟩, hrequests ▸ hstep⟩

/-- **Every moment of a run is in order.** -/
theorem inOrder_act (h : m.InOrder) (actions : List Action) : (act actions m).InOrder :=
  act_induction h (fun _ a h => (step_requests h a).1) actions

/-- **The fate of a request is what its trace makes of it.** -/
theorem stands_act (h : m.InOrder) (hstands : m.requests.Stands q fate) (actions : List Action) :
    (act actions m).requests.Stands q (fate.run q (m.trace q actions)) := by
  induction actions generalizing m fate with
  | nil => exact hstands
  | cons a rest ih =>
    obtain ⟨hnext, hstep⟩ := step_requests h a
    have hafter := Ledger.stands_step hstep h.valid hstands
    have hrun : fate.run q (m.trace q (a :: rest)) =
        (fate.after q (m.event a q)).run q ((a.perform m).trace q rest) := by
      rw [Moment.trace, Fate.run_append]
      cases m.event a q <;> rfl
    rw [act_cons, hrun]
    exact ih hnext hafter

/-- **A window keeps its time along a run.** -/
theorem timed_act (h : m.InOrder) (htimed : m.requests.Timed q due) (actions : List Action) :
    (act actions m).requests.Timed q due :=
  (act_induction (P := fun m => m.InOrder ∧ m.requests.Timed q due) ⟨h, htimed⟩
    (fun _ a h => ⟨(step_requests h.1 a).1, Ledger.timed_step (step_requests h.1 a).2 h.2⟩)
    actions).2

/-- **No request is lost, and none is told of twice.** -/
theorem names_act (h : m.InOrder) (actions : List Action) :
    (act actions m).requests.names.Perm
      (m.requests.names ++ actions.filterMap Action.requested?) := by
  induction actions generalizing m with
  | nil => simp
  | cons a rest ih =>
    obtain ⟨hnext, hstep⟩ := step_requests h a
    have hnames := Ledger.names_step hstep h.valid
    have hsplit : m.requests.names ++ (a :: rest).filterMap Action.requested? =
        m.requests.names ++ a.requested?.toList ++ rest.filterMap Action.requested? := by
      cases hname : a.requested? <;> simp [hname]
    rw [act_cons, hsplit]
    exact (ih hnext).trans (hnames.append_right _)

end Engine

end LanguageRelay
