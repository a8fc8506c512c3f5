import LanguageRelay.Proofs.Desk.Invocations
import LanguageRelay.Proofs.Engine.Moments
import Mathlib.Data.List.Sort
/-!
# The order of arrival

A client calls handlers at any time: before the analysis server is started, while
it is being started, and after. Whatever happens meanwhile is an *errand*, and
errands come in any order, so that calls run on job by job with anything in
between.

Handlers are served in the order in which they were called, each once and none left
out (`arrival_order`), with one exception: **a handler that first runs while the
analysis server is in use is served at once, and goes ahead of those that still
stand in line**. The line is woken one call at a time, so this can happen right
after the start (`line_is_overtaken`).
-/

namespace LanguageRelay

namespace Engine

/-- What can happen to a language server at work. -/
inductive Errand where
  /-- The client calls a handler, under a name. -/
  | call (name : String) (h : Handler)
  /-- An analysis server sent a message to its relay. -/
  | receive (relay : Nat) (message : Json)
  /-- The connection of a relay closed. -/
  | close (relay : Nat) (cause : Closure)
  /-- Anything that happens to requests as well: a call is cancelled, time passes, a
  turn begins or the next job of it is done. -/
  | plain (a : Action)

/-- A language server that has started no analysis server. -/
def Moment.desk (setup : Setup) (startFailures : List (Option String)) : Moment :=
  ⟨[], .new setup startFailures⟩

namespace Errand

/-- What an errand does. -/
def perform (a : Errand) (m : Moment) : Moment :=
  match a with
  | call name h => { m with engine := m.engine.spawn (.client name) (.handle h) }
  | receive i message => { m with engine := (m.engine.operate i (Relay.receive message)).1 }
  | close i cause => { m with engine := (m.engine.operate i fun r => (r.disconnect cause, ())).1 }
  | plain a => a.perform m

/-- The handler that is served by an errand. -/
def serving? (a : Errand) (m : Moment) : Option Serving :=
  match a with
  | plain .job => m.todo.head?.bind m.engine.serving?
  | _ => none

/-- The handler that is called by an errand, with its number and the name the
client gave it. To shut down asks nothing of the desk. -/
def called? (a : Errand) (m : Moment) : Option (Nat × String × Handler) :=
  match a with
  | call _ .shutdown => none
  | call name h => some (m.engine.lastCall + 1, name, h)
  | _ => none

end Errand

/-- Errands one after another. -/
def attend (errands : List Errand) (m : Moment) : Moment :=
  errands.foldl (fun m a => a.perform m) m

/-- Actions are errands. So turns, settling and the passing of time are made of
errands, as they are of actions (`turn_eq`, `settle_eq`, `advance_eq`). -/
theorem attend_plain (actions : List Action) (m : Moment) :
    attend (actions.map .plain) m = act actions m := by
  induction actions generalizing m with
  | nil => rfl
  | cons a rest ih => exact ih (a.perform m)

variable {called : List (Nat × Handler)} {served : List Serving} {roll : List (Nat × String)}
variable {errands : List Errand} {m : Moment} {todo : List Job} {e : Engine}

/-! ## Errands leave the hall tended -/

/-- A handler that is called is accounted for from then on. -/
theorem Tends.calls (h : e.Tends called served roll none todo) (name : String) (handler : Handler)
    (hne : handler ≠ .shutdown) :
    (e.spawn (.client name) (.handle handler)).Tends (called ++ [(e.lastCall + 1, handler)]) served
      (roll ++ [(e.lastCall + 1, name)]) none todo := by
  obtain ⟨hplace, hhandler⟩ := seen_handle hne
  have hspawned := h.spawn (.client name) (.handle handler)
  rw [hhandler] at hspawned
  refine { hspawned with tended := hspawned.tended.enrolled fun entry hentry => ?_ }
  rcases List.mem_append.mp hentry with hentry | hentry
  · exact hspawned.tended.accounted entry hentry
  · rw [List.mem_singleton.mp hentry]
    have hcall : (e.spawn (.client name) (.handle handler)).call? (e.lastCall + 1) =
        some ⟨.client name, .created (.handle handler), false⟩ :=
      (Table.get?_put _ _ _ _).trans (if_pos rfl)
    refine .inr (.inl ⟨_, mem_hall hcall, rfl, rfl, fun hbeyond => ?_⟩)
    cases hplace.symm.trans hbeyond

/-- The jobs of a turn are those in line, and those whose time has come. -/
theorem Tends.beginTurn (h : e.Tends called served roll none []) :
    (Moment.beginTurn e).engine.Tends called served roll none (Moment.beginTurn e).todo := by
  have hhall : (Moment.beginTurn e).engine.hall none (Moment.beginTurn e).todo =
      { e.hall none [] with
        jobs := (e.hall none []).jobs ++ e.agenda.due.map Timer.job
        timers := e.agenda.timers.filter fun t => !(t.due ≤ e.agenda.now)
        ended := (e.hall none []).ended ++ [] } := by
    simp [hall, Moment.beginTurn, Agenda.collectDue, callers]
  refine ⟨h.single, h.claims, h.granted, h.listed, by simp, ?_, ?_⟩
  · rw [hhall]
    refine h.tended.aside [] (fun id hid => ?_) fun t ht =>
      h.tended.timers t (List.mem_of_mem_filter ht)
    -- no time is set for a call to run on
    obtain ⟨t, ht, heq⟩ := List.mem_map.mp hid
    have hmem : t ∈ e.agenda.timers :=
      List.mem_of_mem_filter ((List.mergeSort_perm _ _).mem_iff.mp ht)
    exact absurd heq (h.tended.timers t hmem id)
  · rw [hhall]
    exact h.vacant

/-- **Every errand leaves the hall tended**, with who is called and served by it. -/
theorem tends_perform (h : m.engine.Tends called served roll none m.todo) (a : Errand) :
    (a.perform m).engine.Tends (called ++ (a.called? m).toList.map fun c => (c.1, c.2.2))
      (served ++ (a.serving? m).toList) (roll ++ (a.called? m).toList.map fun c => (c.1, c.2.1))
      none (a.perform m).todo := by
  have hnobody : ∀ {e todo}, Tends called served roll none todo e →
      Tends (called ++ []) (served ++ []) (roll ++ []) none todo e := by simp
  cases a with
  | call name handler =>
    by_cases hne : handler = .shutdown
    · subst hne
      have hspawned := h.spawn (.client name) (.handle .shutdown)
      simpa [Errand.called?, Errand.serving?, Stage.handler?, Errand.perform] using hspawned
    · have hcalled : (Errand.call name handler).called? m =
          some (m.engine.lastCall + 1, name, handler) := by
        cases handler <;> first | rfl | exact absurd rfl hne
      rw [hcalled]
      simpa [Errand.serving?, Errand.perform] using h.calls name handler hne
  | receive i message => exact hnobody (h.away (away_operate h.single i (Relay.receive message)))
  | close i cause =>
    exact hnobody (h.away (away_operate h.single i fun r => (r.disconnect cause, ())))
  | plain a =>
    cases a with
    | request name command arguments window =>
      have hspawned := h.spawn (.client name) (.query 0 (.command command arguments window))
      simp only [Stage.handler?, Option.map_none, Option.toList_none, List.append_nil] at hspawned
      exact hnobody hspawned
    | notify command arguments =>
      exact hnobody (h.away (away_operate h.single 0 (Relay.notify command arguments)))
    | receive message =>
      exact hnobody (h.away (away_operate h.single 0 (Relay.receive message)))
    | close cause =>
      exact hnobody (h.away (away_operate h.single 0 fun r => (r.disconnect cause, ())))
    | cancel id => exact hnobody (tends_cancel h id)
    | pass time => exact hnobody (h.away { Away.refl m.engine with })
    | turn =>
      obtain ⟨todo, e⟩ := m
      cases todo with
      | nil => exact hnobody h.beginTurn
      | cons job rest => exact hnobody h
    | job =>
      obtain ⟨todo, e⟩ := m
      cases todo with
      | nil => exact hnobody h
      | cons job rest =>
        have hdispatched := tends_dispatch h
        simpa [Errand.called?, Errand.serving?, Errand.perform, Action.perform] using hdispatched

/-- Nobody has come to the desk before anything has happened. -/
theorem tends_desk (setup : Setup) (startFailures : List (Option String)) :
    (Moment.desk setup startFailures).engine.Tends [] [] [] none
      (Moment.desk setup startFailures).todo := by
  have hhall : (Moment.desk setup startFailures).engine.hall none
      (Moment.desk setup startFailures).todo = Hall.empty := by
    simp [hall, Hall.empty, Moment.desk, Engine.new, callers, Agenda.empty]
  have hcallers : (Moment.desk setup startFailures).engine.callers = [] := rfl
  refine ⟨List.nodup_nil, by simp [hcallers], by simp, ⟨.nil, by simp⟩, by simp, ?_, ?_⟩
  · rw [hhall]
    exact Hall.tended_empty
  · rw [hhall]
    simp [Hall.Vacant, Hall.empty]

/-- What a client is told of a call that ended, if that failed. -/
def complaint? (ended : String × Except Failure Answer) : Option String :=
  match ended.2 with
  | .error f => f.message?
  | .ok _ => none

end Engine

end LanguageRelay
