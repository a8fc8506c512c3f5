import LanguageRelay.Engine.Turns
import LanguageRelay.Proofs.Checks.Steps
/-!
# Requests, moment by moment

Requests over one connection share an engine with one relay. Whatever happens
to them is an *action*: a request is made or cancelled, a message or the
closing of the connection comes in, time passes, or the next job of a turn is
done. A run is a list of actions in any order, so that anything may come in
between two jobs of a turn. What the engine does when it takes turns or lets
time pass is a run (`turn_eq`, `settle_eq`, `advance_eq`).
-/

namespace LanguageRelay

namespace Engine

/-- An engine in the middle of a turn: the jobs of the turn that are left, and
the rest. -/
structure Moment where
  todo : List Job
  engine : Engine

/-- What can happen to requests over one connection. -/
inductive Action where
  /-- A request is made by the client, under a name. -/
  | request (name command : String) (arguments : Json) (window : Option Duration)
  /-- A command is written that nobody waits on. -/
  | notify (command : String) (arguments : Json)
  /-- The analysis server sent a message. -/
  | receive (message : Json)
  | close (cause : Closure)
  /-- The client cancels a call. -/
  | cancel (call : Nat)
  /-- The clock moves on. -/
  | pass (time : Int)
  /-- A turn begins, with the jobs in line and those that came due. -/
  | turn
  /-- The next job of the turn is done. -/
  | job

namespace Moment

/-- Before anything has happened. -/
def new (setup : Setup) : Moment := ⟨[], withRelay setup⟩

/-- The jobs left in the turn and those in line. -/
def jobs (m : Moment) : List Job := m.todo ++ m.engine.agenda.ready

/-- The engine with the jobs of a new turn taken out of line. -/
def beginTurn (e : Engine) : Moment :=
  ⟨e.agenda.collectDue.ready, { e with agenda := { e.agenda.collectDue with ready := [] } }⟩

end Moment

/-- What an action does. -/
def Action.perform (a : Action) (m : Moment) : Moment :=
  match a with
  | request name command arguments window =>
    { m with
      engine := m.engine.spawn (.client name) (.query 0 (.command command arguments window)) }
  | notify command arguments =>
    { m with engine := (m.engine.operate 0 (Relay.notify command arguments)).1 }
  | receive message => { m with engine := (m.engine.operate 0 (Relay.receive message)).1 }
  | close cause => { m with engine := (m.engine.operate 0 fun r => (r.disconnect cause, ())).1 }
  | cancel id => { m with engine := m.engine.cancel id }
  | pass time => { m with engine := { m.engine with agenda := m.engine.agenda.moveTo time } }
  | turn =>
    match m.todo with
    | [] => .beginTurn m.engine
    | _ => m
  | job =>
    match m.todo with
    | [] => m
    | j :: rest => ⟨rest, m.engine.dispatch j⟩

/-- Actions one after another. -/
def act (actions : List Action) (m : Moment) : Moment :=
  actions.foldl (fun m a => a.perform m) m

@[simp] theorem act_nil (m : Moment) : act [] m = m := rfl

@[simp] theorem act_cons (a : Action) (rest : List Action) (m : Moment) :
    act (a :: rest) m = act rest (a.perform m) :=
  rfl

theorem act_append (actions more : List Action) (m : Moment) :
    act (actions ++ more) m = act more (act actions m) :=
  List.foldl_append ..

/-- What holds at a moment and is kept by every action holds after any. -/
theorem act_induction {P : Moment → Prop} {m : Moment} (h : P m)
    (hstep : ∀ m a, P m → P (Action.perform a m)) (actions : List Action) : P (act actions m) := by
  induction actions generalizing m with
  | nil => exact h
  | cons a rest ih => exact ih (hstep m a h)

/-! ## What the engine does is a run -/

/-- Doing the jobs left in a turn. -/
theorem act_jobs (todo : List Job) (e : Engine) :
    act (List.replicate todo.length .job) ⟨todo, e⟩ = ⟨[], todo.foldl dispatch e⟩ := by
  induction todo generalizing e with
  | nil => rfl
  | cons j rest ih => exact ih (e.dispatch j)

/-- **A turn is a run.** -/
theorem turn_eq (e : Engine) : ∃ actions, act actions ⟨[], e⟩ = ⟨[], e.turn⟩ :=
  ⟨.turn :: List.replicate e.agenda.collectDue.ready.length .job, act_jobs _ _⟩

/-- Runs follow one another. -/
theorem act_trans {m m' m'' : Moment} (h : ∃ actions, act actions m = m')
    (h' : ∃ actions, act actions m' = m'') : ∃ actions, act actions m = m'' := by
  obtain ⟨actions, rfl⟩ := h
  obtain ⟨more, rfl⟩ := h'
  exact ⟨actions ++ more, act_append _ _ _⟩

theorem settleWithin_eq (budget : Nat) (e : Engine) :
    ∃ actions, act actions ⟨[], e⟩ = ⟨[], settleWithin budget e⟩ := by
  induction budget generalizing e with
  | zero => exact ⟨[], rfl⟩
  | succ budget ih =>
    rw [settleWithin]
    split
    · exact ⟨[], rfl⟩
    · exact act_trans (turn_eq e) (ih e.turn)

/-- **So is settling.** -/
theorem settle_eq (e : Engine) : ∃ actions, act actions ⟨[], e⟩ = ⟨[], e.settle⟩ :=
  settleWithin_eq e.turnBudget e

theorem passWithin_eq (limit : Int) (budget : Nat) (e : Engine) :
    ∃ actions, act actions ⟨[], e⟩ = ⟨[], passWithin limit budget e⟩ := by
  induction budget generalizing e with
  | zero => exact ⟨[], rfl⟩
  | succ budget ih =>
    rw [passWithin]
    split
    · exact ⟨[], rfl⟩
    · rename_i time _
      have hmoved : ∃ actions, act actions ⟨[], e⟩ =
          ⟨[], { e with agenda := e.agenda.moveTo time }⟩ := ⟨[.pass time], rfl⟩
      exact act_trans hmoved (act_trans (settle_eq _) (ih _))

/-- **And so is letting time pass.** -/
theorem advance_eq (span : Duration) (e : Engine) :
    ∃ actions, act actions ⟨[], e⟩ = ⟨[], e.advance span⟩ :=
  act_trans (settle_eq e) (act_trans (passWithin_eq _ _ _) ⟨[.pass _], rfl⟩)

end Engine

end LanguageRelay
