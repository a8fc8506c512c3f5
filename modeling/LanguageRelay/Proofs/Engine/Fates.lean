import LanguageRelay.Proofs.Engine.Connection
/-!
# What becomes of a request

A request that was written waits until something comes for it (`Event`): it
hears an outcome, it is cancelled, or its window is over. After that it ends
when it next runs, and until then something more may come. `Fate.next` says
what each event makes of a request, and `Call.fate` reads off a call how far
it has come.

What comes first decides, with two exceptions. A request with a window that
was cancelled or is over still takes an outcome that comes before it has run
(`outcome?_run_leaving`). A request without one that has heard an outcome can
still be cancelled before it has run (`outcome?_run_decided`).
-/

namespace LanguageRelay

/-- A request that was written: the call, the name the client made it under,
its number and the command. -/
structure Written where
  call : Nat
  name : String
  seq : Nat
  ask : Ask

/-- What can come for a request. -/
inductive Event where
  /-- A response, or the closing of the connection. -/
  | heard (outcome : Except Failure Json)
  | cancelled
  /-- Its window is over. -/
  | expired
  /-- It runs on after it was woken. -/
  | ranOn

/-- The outcome that is heard by an event. -/
def Event.outcome? : Event → Option (Except Failure Json)
  | .heard o => some o
  | _ => none

/-- What comes before the request runs. -/
def Event.untilRun : List Event → List Event
  | [] | .ranOn :: _ => []
  | event :: rest => event :: untilRun rest

theorem Event.untilRun_subset {events : List Event} : untilRun events ⊆ events := by
  induction events with
  | nil => exact List.Subset.refl _
  | cons event rest ih =>
    cases event with
    | ranOn => exact List.nil_subset _
    | _ => exact List.cons_subset_cons _ ih

/-- How far a request has come. -/
inductive Fate where
  | waiting
  /-- It has an outcome, and has not run since. -/
  | decided (outcome : Except Failure Json)
  /-- It is to give its command up when it next runs. -/
  | leaving (why : Ending)
  /-- It has given its command up, and ends when it next runs. -/
  | withdrawn (why : Ending)
  /-- It has ended. -/
  | gone (outcome : Except Failure Json)

/-- The outcome of a request that gave its command up. -/
def Written.ending (q : Written) : Ending → Except Failure Json
  | .cancelled => .error .cancelled
  | .timedOut => .error (.timedOut q.ask.command q.seq q.ask.shownWindow)

namespace Fate

/-- What an event makes of a request. -/
def next (q : Written) : Fate → Event → Fate
  | gone o, _ => gone o
  | waiting, .heard o | leaving _, .heard o => decided o
  | decided o, .heard _ => decided o
  | withdrawn why, .heard _ => withdrawn why
  | waiting, .cancelled =>
    if q.ask.window = none then decided (.error .cancelled) else leaving .cancelled
  | decided o, .cancelled => if q.ask.window = none then decided (.error .cancelled) else decided o
  | leaving _, .cancelled => leaving .cancelled
  | withdrawn _, .cancelled => withdrawn .cancelled
  | waiting, .expired => if q.ask.window = none then waiting else leaving .timedOut
  | fate, .expired => fate
  | waiting, .ranOn => waiting
  | decided o, .ranOn => gone o
  | leaving why, .ranOn => withdrawn why
  | withdrawn why, .ranOn => gone (q.ending why)

/-- What comes of a request when something may have come for it. -/
def after (q : Written) (fate : Fate) (event : Option Event) : Fate := event.elim fate (fate.next q)

/-- What comes of a request by events one after another. -/
def run (q : Written) (fate : Fate) (events : List Event) : Fate := events.foldl (next q) fate

/-- The outcome that a request has or ended with. -/
def outcome? : Fate → Option (Except Failure Json)
  | decided o | gone o => some o
  | _ => none

/-- How far a request is when it has just been written: a window that is over
from the start is over at once. -/
def start (ask : Ask) : Fate :=
  match ask.window with
  | some window => if window.nanos ≤ 0 then withdrawn .timedOut else waiting
  | none => waiting

variable {q : Written}

theorem run_cons (fate : Fate) (event : Event) (events : List Event) :
    fate.run q (event :: events) = (fate.next q event).run q events :=
  rfl

theorem run_append (fate : Fate) (events more : List Event) :
    fate.run q (events ++ more) = (fate.run q events).run q more :=
  List.foldl_append ..

/-! ## What comes first decides -/

/-- What has ended has ended. -/
theorem run_gone (o : Except Failure Json) (events : List Event) :
    (gone o).run q events = gone o := by
  induction events with
  | nil => rfl
  | cons event rest ih => exact ih

/-- **An outcome once heard is final**, unless a request without a window is
cancelled before it has run. -/
theorem outcome?_run_decided {events : List Event}
    (h : q.ask.window ≠ none ∨ Event.cancelled ∉ Event.untilRun events) (o : Except Failure Json) :
    ((decided o).run q events).outcome? = some o := by
  induction events with
  | nil => rfl
  | cons event rest ih =>
    rw [run_cons]
    cases event with
    | heard o' => exact ih (h.imp_right fun hnot hmem => hnot (List.mem_cons_of_mem _ hmem))
    | expired => exact ih (h.imp_right fun hnot hmem => hnot (List.mem_cons_of_mem _ hmem))
    | ranOn =>
      rw [next, run_gone]
      rfl
    | cancelled =>
      have hwindow : q.ask.window ≠ none := h.resolve_right (by simp [Event.untilRun])
      rw [next, if_neg hwindow]
      exact ih (.inl hwindow)

/-- **A request that is neither cancelled nor out of time has the first outcome
that it hears.** -/
theorem outcome?_run_waiting {events : List Event}
    (h : ∀ event ∈ events, event ≠ .cancelled ∧ event ≠ .expired) :
    (waiting.run q events).outcome? = events.findSome? Event.outcome? := by
  induction events with
  | nil => rfl
  | cons event rest ih =>
    obtain ⟨hfirst, hrest⟩ := List.forall_mem_cons.mp h
    cases event with
    | heard o =>
      have hkept : Event.cancelled ∉ Event.untilRun rest := fun hmem =>
        (hrest _ (Event.untilRun_subset hmem)).1 rfl
      exact outcome?_run_decided (.inr hkept) o
    | ranOn => exact ih hrest
    | cancelled => exact absurd rfl hfirst.1
    | expired => exact absurd rfl hfirst.2

/-- **A request without a window that was cancelled stays so**, whatever it
hears. -/
theorem outcome?_run_cancelled (events : List Event) :
    ((decided (.error .cancelled)).run q events).outcome? = some (.error .cancelled) := by
  induction events with
  | nil => rfl
  | cons event rest ih =>
    rw [run_cons]
    cases event with
    | heard o => exact ih
    | expired => exact ih
    | ranOn =>
      rw [next, run_gone]
      rfl
    | cancelled =>
      have hsame : next q (decided (.error .cancelled)) .cancelled =
          decided (.error .cancelled) := by
        simp [next]
      rw [hsame]
      exact ih

/-- A request that gave its command up hears nothing more: it ends for its
window or, if it is cancelled still, as cancelled. -/
theorem run_withdrawn (why : Ending) (events : List Event) :
    ∃ why', (why' = why ∨ why' = .cancelled ∧ Event.cancelled ∈ events) ∧
      ((withdrawn why).run q events = withdrawn why' ∨
        (withdrawn why).run q events = gone (q.ending why')) := by
  induction events generalizing why with
  | nil => exact ⟨why, .inl rfl, .inl rfl⟩
  | cons event rest ih =>
    have hkeep : ∀ {why'}, (why' = why ∨ why' = .cancelled ∧ Event.cancelled ∈ rest) →
        (why' = why ∨ why' = .cancelled ∧ Event.cancelled ∈ event :: rest) :=
      fun h => h.imp_right fun h => ⟨h.1, List.mem_cons_of_mem _ h.2⟩
    rw [run_cons]
    cases event with
    | heard o =>
      obtain ⟨why', hwhy, hrun⟩ := ih why
      exact ⟨why', hkeep hwhy, hrun⟩
    | expired =>
      obtain ⟨why', hwhy, hrun⟩ := ih why
      exact ⟨why', hkeep hwhy, hrun⟩
    | ranOn => exact ⟨why, .inl rfl, .inr (run_gone _ _)⟩
    | cancelled =>
      obtain ⟨why', hwhy, hrun⟩ := ih .cancelled
      have hcancelled : why' = .cancelled := hwhy.elim id fun h => h.1
      exact ⟨why', .inr ⟨hcancelled, List.mem_cons_self⟩, hrun⟩

/-- **A request that is to give its command up takes an outcome that comes
before it runs.** -/
theorem outcome?_run_leaving (hwindow : q.ask.window ≠ none) (why : Ending) {events : List Event}
    {o : Except Failure Json} (hheard : (Event.untilRun events).findSome? Event.outcome? = some o) :
    ((leaving why).run q events).outcome? = some o := by
  induction events generalizing why with
  | nil => cases hheard
  | cons event rest ih =>
    rw [run_cons]
    cases event with
    | heard o' =>
      cases hheard
      exact outcome?_run_decided (.inl hwindow) o
    | expired => exact ih why hheard
    | cancelled => exact ih .cancelled hheard
    | ranOn => cases hheard

/-- **A request that is to give its command up, and hears nothing before it
runs, ends for its window**, or as cancelled if it is cancelled still. -/
theorem run_leaving (why : Ending) {events : List Event}
    (hdeaf : (Event.untilRun events).findSome? Event.outcome? = none) :
    ∃ why', (why' = why ∨ why' = .cancelled ∧ Event.cancelled ∈ events) ∧
      ((leaving why).run q events = leaving why' ∨ (leaving why).run q events = withdrawn why' ∨
        (leaving why).run q events = gone (q.ending why')) := by
  induction events generalizing why with
  | nil => exact ⟨why, .inl rfl, .inl rfl⟩
  | cons event rest ih =>
    rw [run_cons]
    cases event with
    | heard o => cases hdeaf
    | expired =>
      obtain ⟨why', hwhy, hrun⟩ := ih why hdeaf
      exact ⟨why', hwhy.imp_right fun h => ⟨h.1, List.mem_cons_of_mem _ h.2⟩, hrun⟩
    | cancelled =>
      obtain ⟨why', hwhy, hrun⟩ := ih .cancelled hdeaf
      have hcancelled : why' = .cancelled := hwhy.elim id fun h => h.1
      exact ⟨why', .inr ⟨hcancelled, List.mem_cons_self⟩, hrun⟩
    | ranOn =>
      -- It has given its command up, and hears nothing more.
      obtain ⟨why', hwhy, hrun⟩ := run_withdrawn (q := q) why rest
      exact ⟨why', hwhy.imp_right fun h => ⟨h.1, List.mem_cons_of_mem _ h.2⟩, .inr hrun⟩

end Fate

/-! ## Reading the fate off a call -/

/-- How far a call has come that waits for a command. -/
def Watch.fate : Watch → Option (Except Failure Json) → Bool → Fate
  | .unbounded, _, true => .decided (.error .cancelled)
  | .unbounded, none, false => .waiting
  | .unbounded, some o, false => .decided o
  | .windowed _, some o, _ => .decided o
  | .windowed _, none, true => .leaving .cancelled
  | .windowed .pending, none, false => .waiting
  | .windowed .raised, none, false => .leaving .timedOut
  | .windowed .cancelled, none, false => .leaving .cancelled
  | .ending why, _, cancelled => .withdrawn (if cancelled then .cancelled else why)

/-- The call has been woken, and runs on when its turn comes. -/
def Watch.awake : Watch → Option (Except Failure Json) → Bool → Bool
  | .unbounded, outcome, cancelled => cancelled || outcome.isSome
  | .windowed signal, _, cancelled => cancelled || signal != .pending
  | .ending _, _, _ => true

/-- How far a call has come. -/
def Call.fate (c : Call) : Fate :=
  match c.stage with
  | .asking _ _ _ watch outcome _ => watch.fate outcome c.cancelled
  | _ => .waiting

namespace Watch

variable {q : Written} {watch : Watch} {outcome : Option (Except Failure Json)} {cancelled : Bool}

/-- Cancelling a call without a window that has no outcome gives it one. -/
theorem fate_unbounded_cancel (hwindow : q.ask.window = none) :
    Watch.unbounded.fate (some (.error .cancelled)) cancelled =
      (Watch.unbounded.fate none cancelled).next q .cancelled := by
  cases cancelled <;> simp [fate, Fate.next, hwindow]

/-- Cancelling a call that has been woken is noted for when it runs. -/
theorem fate_noted (hwindow : watch = .unbounded ↔ q.ask.window = none) :
    watch.fate outcome true = (watch.fate outcome cancelled).next q .cancelled := by
  cases watch with
  | unbounded =>
    have hnone := hwindow.mp rfl
    cases cancelled <;> cases outcome <;> simp [fate, Fate.next, hnone]
  | windowed signal =>
    have hsome : q.ask.window ≠ none := fun h => by cases hwindow.mpr h
    cases signal <;> cases cancelled <;> cases outcome <;> simp [fate, Fate.next, hsome]
  | ending why => cases cancelled <;> rfl

/-- Cancelling a call that waits within its window wakes it. -/
theorem fate_windowed_cancel (hwindow : q.ask.window ≠ none) :
    (Watch.windowed .cancelled).fate outcome cancelled =
      ((Watch.windowed .pending).fate outcome cancelled).next q .cancelled := by
  cases cancelled <;> cases outcome <;> simp [fate, Fate.next, hwindow]

/-- So does the end of the window. -/
theorem fate_expire (hwindow : q.ask.window ≠ none) :
    (Watch.windowed .raised).fate outcome cancelled =
      ((Watch.windowed .pending).fate outcome cancelled).next q .expired := by
  cases cancelled <;> cases outcome <;> simp [fate, Fate.next, hwindow]

/-- A call that does not wait within a window does not mind its end. -/
theorem fate_expire_other (hwindow : watch = .unbounded ↔ q.ask.window = none)
    (hpending : watch ≠ .windowed .pending) :
    (watch.fate outcome cancelled).next q .expired = watch.fate outcome cancelled := by
  cases watch with
  | unbounded =>
    have hnone := hwindow.mp rfl
    cases cancelled <;> cases outcome <;> simp [fate, Fate.next, hnone]
  | windowed signal =>
    cases signal with
    | pending => exact absurd rfl hpending
    | raised => cases cancelled <;> cases outcome <;> rfl
    | cancelled => cases cancelled <;> cases outcome <;> rfl
  | ending why => rfl

/-- A call that is awake does not wait any more. -/
theorem fate_ne_waiting (h : watch.awake outcome cancelled = true) :
    watch.fate outcome cancelled ≠ .waiting := by
  cases watch with
  | unbounded => cases outcome <;> cases cancelled <;> simp [awake, fate] at h ⊢
  | windowed signal =>
    cases signal <;> cases outcome <;> cases cancelled <;> simp [awake, fate] at h ⊢
  | ending why => simp [fate]

/-- A call has not ended. -/
theorem fate_ne_gone (o : Except Failure Json) : watch.fate outcome cancelled ≠ .gone o := by
  cases watch with
  | unbounded => cases outcome <;> cases cancelled <;> simp [fate]
  | windowed signal => cases signal <;> cases outcome <;> cases cancelled <;> simp [fate]
  | ending why => simp [fate]

/-- An outcome that is passed on was heard before. -/
theorem fate_passOn (h : outcome.isSome) :
    (Watch.windowed .raised).fate outcome cancelled =
      (Watch.windowed .pending).fate outcome cancelled := by
  obtain ⟨o, rfl⟩ := Option.isSome_iff_exists.mp h
  cases cancelled <;> rfl

end Watch

/-- The call runs on when its turn comes. -/
def Call.awake (c : Call) : Bool :=
  match c.stage with
  | .asking _ _ _ watch outcome _ => watch.awake outcome c.cancelled
  | _ => false

/-- **The call is that of the request**: it waits for the outcome of its
command, without a window exactly if the command has none. -/
inductive Call.Of (q : Written) : Call → Prop where
  | intro (watch : Watch) (outcome : Option (Except Failure Json)) (cancelled : Bool)
      (hwatch : watch = .unbounded ↔ q.ask.window = none) :
      Of q ⟨.client q.name, .asking 0 q.seq q.ask watch outcome (.answer .raw), cancelled⟩

variable {q : Written} {c : Call}

/-- A call that has its outcome hears nothing more. -/
theorem Call.Of.deaf (h : c.Of q) (hanswered : c.Answered) (o : Except Failure Json) :
    c.fate.next q (.heard o) = c.fate := by
  obtain ⟨watch, outcome, cancelled, -⟩ := h
  obtain ⟨i, seq, ask, watch', o', next, hstage⟩ := hanswered
  cases hstage
  cases watch <;> cases cancelled <;> rfl

/-- A call that has none hears it. -/
theorem Call.Of.take (h : c.Of q) (hopen : ¬ c.Answered) (o : Except Failure Json) :
    (c.take q.seq o).Of q ∧ (c.take q.seq o).Answered ∧
      (c.take q.seq o).fate = c.fate.next q (.heard o) := by
  obtain ⟨watch, outcome, cancelled, hwatch⟩ := h
  cases outcome with
  | some o' => exact absurd ⟨_, _, _, _, _, _, rfl⟩ hopen
  | none =>
    have htake : Call.take q.seq o
        ⟨.client q.name, .asking 0 q.seq q.ask watch none (.answer .raw), cancelled⟩ =
          ⟨.client q.name, .asking 0 q.seq q.ask watch (some o) (.answer .raw), cancelled⟩ :=
      if_pos rfl
    rw [htake]
    refine ⟨.intro _ _ _ hwatch, ⟨_, _, _, _, _, _, rfl⟩, ?_⟩
    cases watch with
    | unbounded => cases cancelled <;> rfl
    | windowed signal => cases signal <;> cases cancelled <;> rfl
    | ending why => cases cancelled <;> rfl

/-- **A call hears the outcome that the effects give to its number.** -/
theorem Call.Of.learn (h : c.Of q) (fx : List Effect) :
    (fx.foldl Call.learn c).Of q ∧
      (fx.foldl Call.learn c).fate = c.fate.after q ((Relay.given? q.seq fx).map .heard) ∧
      ((fx.foldl Call.learn c).Answered ∨ Relay.given? q.seq fx = none) := by
  by_cases hanswered : c.Answered
  · rw [Engine.foldl_learn_of_answered hanswered]
    refine ⟨h, ?_, .inl hanswered⟩
    cases Relay.given? q.seq fx with
    | none => rfl
    | some o => exact (h.deaf hanswered o).symm
  · induction fx with
    | nil => exact ⟨h, rfl, .inr rfl⟩
    | cons effect rest ih =>
      rw [List.foldl_cons]
      by_cases hmine : ∃ o, effect = .answered q.seq o
      · obtain ⟨o, rfl⟩ := hmine
        obtain ⟨hof, hdone, hfate⟩ := h.take hanswered o
        have hgiven : Relay.given? q.seq (.answered q.seq o :: rest) = some o := by
          simp [Relay.given?]
        have hlearn : c.learn (.answered q.seq o) = c.take q.seq o := rfl
        rw [hlearn, hgiven, Engine.foldl_learn_of_answered hdone]
        exact ⟨hof, hfate, .inl hdone⟩
      · -- An effect for another number, or none.
        have hsame : c.learn effect = c := by
          obtain ⟨watch, outcome, cancelled, -⟩ := h
          cases effect with
          | answered s o =>
            have hne : q.seq ≠ s := fun heq => hmine ⟨o, by rw [heq]⟩
            cases outcome <;> simp [Call.learn, Call.take, hne]
          | _ => rfl
        have hgiven : Relay.given? q.seq (effect :: rest) = Relay.given? q.seq rest := by
          cases effect with
          | answered s o =>
            have hne : s ≠ q.seq := fun heq => hmine ⟨o, by rw [heq]⟩
            simp [Relay.given?, hne]
          | _ => rfl
        rw [hsame, hgiven]
        exact ih

end LanguageRelay
