import LanguageRelay.Proofs.Engine.Fates
/-!
# The ledger of requests

What matters for requests over one connection is the connection, the calls,
what is in line and what waits for its time: the *ledger* of an engine. Seven
kinds of entry are made in it (`Ledger.Step`): a call is made, an outcome is
heard, one call moves on or ends, one is missed, the clock moves on, and jobs
come due. Each is labelled with what comes by it for a request.

`Ledger.Valid` is the invariant. Every command that a call waits for is listed,
so that an outcome given to its number is heard, and nobody is forgotten: a
call that can run has a job in line, and one that waits within a window has
its timer (`Call.Attended`).
-/

namespace LanguageRelay

/-! ## What is kept -/

/-- The connection numbers commands: each number is listed once and was given
out, and nothing is listed after the closing. -/
structure Link.Sound (link : Link) : Prop where
  listed : (link.pending.map Pending.seq).Nodup
  numbered : ∀ p ∈ link.pending, p.seq ≤ link.last
  shut : link.closed.isSome → link.pending = []
  unlimited : link.limit = none

/-- The connection changes for one number alone, if for any. -/
structure Link.Touched (seq? : Option Nat) (link link' : Link) : Prop where
  sound : link'.Sound
  last : link.last ≤ link'.last
  kept : ∀ p ∈ link.pending, seq? ≠ some p.seq → p ∈ link'.pending

/-- The call a job is for. -/
def Job.call? : Job → Option Nat
  | .resume id | .passOn id _ | .expire id _ => some id
  | _ => none

/-- The name under which the client made a call. -/
def Call.name (c : Call) : String :=
  match c.role with
  | .client name => name
  | _ => ""

/-- The call of a request that has not run. -/
def Call.fresh (name command : String) (arguments : Json) (window : Option Duration)
    (cancelled : Bool) : Call :=
  ⟨.client name, .created (.query 0 (.command command arguments window)), cancelled⟩

/-- **The call is that of a request**: it has not run, or it waits for a
command that was numbered and, as long as it has no outcome, is listed. -/
inductive Call.Proper (link : Link) : Call → Prop where
  | fresh (name command : String) (arguments : Json) (window : Option Duration) (cancelled : Bool) :
      Proper link (.fresh name command arguments window cancelled)
  | asking {c : Call} (q : Written) (hof : c.Of q) (hseq : q.seq ≤ link.last)
      (hlisted : ¬ c.Answered → ⟨q.seq, q.ask.command, false⟩ ∈ link.pending) : Proper link c

/-- There is a job in line for the call if it can run, and a timer if it waits
within a window. -/
def Watch.Attended (id seq : Nat) (jobs : List Job) (timers : List (Timer Job)) :
    Watch → Option (Except Failure Json) → Bool → Prop
  | .unbounded, outcome, cancelled => outcome.isSome ∨ cancelled → .resume id ∈ jobs
  | .windowed .pending, none, cancelled =>
    cancelled = false ∧ (.expire id seq ∈ jobs ∨ ∃ t ∈ timers, t.job = .expire id seq)
  | .windowed .pending, some _, cancelled => cancelled = false ∧ .passOn id seq ∈ jobs
  | .windowed _, _, _ => .resume id ∈ jobs
  | .ending _, _, _ => .passOn id seq ∈ jobs ∨ .resume id ∈ jobs

/-- **The call is not forgotten.** -/
def Call.Attended (id : Nat) (jobs : List Job) (timers : List (Timer Job)) (c : Call) : Prop :=
  match c.stage with
  | .created _ => .resume id ∈ jobs
  | .asking _ seq _ watch outcome _ => watch.Attended id seq jobs timers outcome c.cancelled
  | _ => True

/-- What an engine says of requests over one connection. -/
structure Ledger where
  setup : Setup
  link : Link
  calls : List (Nat × Call)
  lastCall : Nat
  now : Int
  jobs : List Job
  timers : List (Timer Job)
  ended : List (String × Except Failure Answer)

namespace Ledger

/-- A job of requests: what is passed on to a call is the outcome it has, and
its number was given out. -/
def Sensible (l : Ledger) : Job → Prop
  | .resume _ => True
  | .passOn id seq =>
    seq ≤ l.link.last ∧ ∀ c, (id, c) ∈ l.calls → c.seq? = some seq → c.Answered
  | .expire _ seq => seq ≤ l.link.last
  | _ => False

/-- **The ledger is in order.** -/
structure Valid (l : Ledger) : Prop where
  link : l.link.Sound
  apart : Engine.Apart l.calls
  made : ∀ x ∈ l.calls, x.1 ≤ l.lastCall
  proper : ∀ x ∈ l.calls, x.2.Proper l.link
  attended : ∀ x ∈ l.calls, x.2.Attended x.1 l.jobs l.timers
  jobs : ∀ job ∈ l.jobs, l.Sensible job
  timers : ∀ t ∈ l.timers, ∃ id seq, t.job = .expire id seq ∧ seq ≤ l.link.last

/-- **It is one call's turn**: jobs at the head of the line are for it, and
the connection changes for the number `seq?` alone. -/
structure Turn (l : Ledger) (id : Nat) (c : Call) (seq? : Option Nat) (done rest : List Job)
    (link' : Link) : Prop where
  call : (id, c) ∈ l.calls
  jobs : l.jobs = done ++ rest
  own : ∀ job ∈ done, job.call? = some id
  touched : l.link.Touched seq? link'

/-- **What can happen to requests**, each labelled with the name of the request
that is made by it, and with what comes by it for a request. -/
inductive Step (l : Ledger) : Option String → (Written → Option Event) → Ledger → Prop where
  /-- The client makes a request. -/
  | made (name command : String) (arguments : Json) (window : Option Duration) :
      Step l (some name) (fun _ => none)
        { l with
          calls := l.calls ++ [(l.lastCall + 1, .fresh name command arguments window false)]
          lastCall := l.lastCall + 1
          jobs := l.jobs ++ [.resume (l.lastCall + 1)] }
  /-- Tidings come in over the connection. -/
  | heard {tidings : Tidings} {link' : Link} {fx : List Effect} {js : List Job}
      (hbrings : Relay.Brings tidings l.link link' fx)
      (hwakes : ∀ job ∈ js,
        Engine.Wakes (l.calls.map fun x => (x.1, fx.foldl Call.learn x.2)) job)
      (hwoken : ∀ x ∈ l.calls, ¬ x.2.Answered → (fx.foldl Call.learn x.2).Answered →
        ∀ job, (fx.foldl Call.learn x.2).wakeup? x.1 = some job → job ∈ js) :
      Step l none (fun q => (tidings q.seq q.ask.command).map .heard)
        { l with
          link := link'
          calls := l.calls.map fun x => (x.1, fx.foldl Call.learn x.2)
          jobs := l.jobs ++ js }
  /-- A call moves on: it writes its command, is woken, is cancelled, or gives
  its command up. -/
  | moved {id : Nat} {c c' : Call} {done rest js : List Job} {link' : Link} {set : List (Timer Job)}
      {ev : Written → Option Event} (hother : ∀ q, q.call ≠ id → ev q = none)
      (hturn : l.Turn id c c'.seq? done rest link') (hproper : c'.Proper link')
      (hname : c'.name = c.name)
      (hseq : c'.seq? = c.seq? ∨
        c.seq? = none ∧ c'.seq? = some (l.link.last + 1) ∧ l.link.last < link'.last)
      (hanswered : c.Answered → c'.Answered)
      (hposted : ∀ job ∈ js, job = .resume id ∨
        ∃ seq, job = .passOn id seq ∧ c'.seq? = some seq ∧ c'.Answered)
      (hset : ∀ t ∈ set, c.seq? = none ∧ ∃ seq, t.job = .expire id seq ∧ c'.seq? = some seq)
      (hattended : c'.Attended id (rest ++ js) (l.timers ++ set))
      (hfate : ∀ q, q.call = id → c.Of q → c'.Of q ∧ c'.fate = c.fate.after q (ev q)) :
      Step l none ev
        { l with
          link := link'
          calls := Table.update id (fun _ => c') l.calls
          jobs := rest ++ js
          timers := l.timers ++ set }
  /-- A call ends. -/
  | ended {id : Nat} {c : Call} {done rest : List Job} {link' : Link} {timers : List (Timer Job)}
      {outcome : Except Failure Answer} {ev : Written → Option Event}
      (hother : ∀ q, q.call ≠ id → ev q = none) (hturn : l.Turn id c c.seq? done rest link')
      (hsub : timers.Sublist l.timers)
      (hkept : ∀ t ∈ l.timers, t.job.call? ≠ some id → t ∈ timers)
      (hfate : ∀ q, q.call = id → c.Of q →
        ∃ o, outcome = o.map .raw ∧ c.fate.after q (ev q) = .gone o) :
      Step l none ev
        { l with
          link := link'
          calls := Table.erase id l.calls
          jobs := rest
          timers
          ended := l.ended ++ [(c.name, outcome)] }
  /-- Something comes for a call that has ended. -/
  | missed {id : Nat} (done : List Job) {rest : List Job} {ev : Written → Option Event}
      (hother : ∀ q, q.call ≠ id → ev q = none) (hnone : ∀ c, (id, c) ∉ l.calls)
      (hjobs : l.jobs = done ++ rest) (hown : ∀ job ∈ done, job.call? = some id) :
      Step l none ev { l with jobs := rest }
  | passed {now : Int} (hnow : l.now ≤ now) : Step l none (fun _ => none) { l with now }
  /-- Jobs come due. -/
  | fell (due later : List (Timer Job)) (hdue : ∀ t ∈ due, t ∈ l.timers ∧ t.due ≤ l.now)
      (hlater : later.Sublist l.timers) (hall : ∀ t ∈ l.timers, t ∈ due ∨ t ∈ later) :
      Step l none (fun _ => none)
        { l with jobs := l.jobs ++ due.map Timer.job, timers := later }

end Ledger

/-! ## What calls and jobs keep -/

variable {c c' : Call} {q : Written} {link link' : Link} {id : Nat}

@[simp] theorem Call.Of.seq? (h : c.Of q) : c.seq? = some q.seq := by
  obtain ⟨watch, outcome, cancelled, -⟩ := h
  rfl

/-- A call is that of one request only. -/
theorem Call.Of.unique {q' : Written} (h : c.Of q) (h' : c.Of q') :
    q'.name = q.name ∧ q'.seq = q.seq ∧ q'.ask = q.ask := by
  obtain ⟨call', name', seq', ask'⟩ := q'
  obtain ⟨watch, outcome, cancelled, -⟩ := h
  cases h'
  exact ⟨rfl, rfl, rfl⟩

/-- The number of a call was given out. -/
theorem Call.Proper.le {seq : Nat} (h : c.Proper link) (hseq : c.seq? = some seq) :
    seq ≤ link.last := by
  cases h with
  | fresh => simp [Call.fresh, Call.seq?] at hseq
  | asking q hof hle _ =>
    rw [hof.seq?] at hseq
    cases hseq
    exact hle

/-- A call stays proper if its command stays listed. -/
theorem Call.Proper.mono (h : c.Proper link) (hlast : link.last ≤ link'.last)
    (hkept : ∀ p ∈ link.pending, c.seq? = some p.seq → p ∈ link'.pending) : c.Proper link' := by
  cases h with
  | fresh => exact .fresh ..
  | asking q hof hle hlisted =>
    exact .asking q hof (Nat.le_trans hle hlast) fun hopen => hkept _ (hlisted hopen) hof.seq?

/-- A call stays attended if its jobs stay in line, and its timer stands or
comes due. -/
theorem Call.Attended.mono {jobs jobs' : List Job} {timers timers' : List (Timer Job)}
    (h : c.Attended id jobs timers) (hjobs : ∀ job ∈ jobs, job.call? = some id → job ∈ jobs')
    (htimers : ∀ t ∈ timers, t.job.call? = some id → t ∈ timers' ∨ t.job ∈ jobs') :
    c.Attended id jobs' timers' := by
  obtain ⟨role, stage, cancelled⟩ := c
  cases stage with
  | created work => exact hjobs _ h rfl
  | asking i seq ask watch outcome next =>
    change watch.Attended id seq jobs timers outcome cancelled at h
    change watch.Attended id seq jobs' timers' outcome cancelled
    cases watch with
    | unbounded => exact fun hdone => hjobs _ (h hdone) rfl
    | windowed signal =>
      cases signal with
      | pending =>
        cases outcome with
        | none =>
          refine ⟨h.1, ?_⟩
          rcases h.2 with hjob | ⟨t, ht, hjob⟩
          · exact .inl (hjobs _ hjob rfl)
          · rcases htimers t ht (by rw [hjob]; rfl) with ht' | hfell
            · exact .inr ⟨t, ht', hjob⟩
            · exact .inl (hjob ▸ hfell)
        | some o => exact ⟨h.1, hjobs _ h.2 rfl⟩
      | raised => exact hjobs _ h rfl
      | cancelled => exact hjobs _ h rfl
    | ending why => exact h.imp (fun h => hjobs _ h rfl) fun h => hjobs _ h rfl
  | checking => trivial
  | gathering => trivial
  | queued => trivial

namespace Engine

variable {calls : List (Nat × Call)}

/-- Fewer calls are apart. -/
theorem Apart.sublist (h : Apart calls) {calls' : List (Nat × Call)} (hsub : calls'.Sublist calls) :
    Apart calls' where
  single := h.single.sublist (hsub.map _)
  distinct x hx y hy := h.distinct x (hsub.subset hx) y (hsub.subset hy)

/-- A call without a number is apart from all others. -/
theorem Apart.append (h : Apart calls) (hnew : id ∉ Table.keys calls) (hnone : c.seq? = none) :
    Apart (calls ++ [(id, c)]) where
  single := by
    rw [← Table.put_of_not_mem c hnew]
    exact Table.nodup_keys_put h.single
  distinct x hx y hy seq hxs hys := by
    simp only [List.mem_append, List.mem_singleton] at hx hy
    rcases hx with hx | rfl
    · rcases hy with hy | rfl
      · exact h.distinct x hx y hy seq hxs hys
      · rw [hnone] at hys
        cases hys
    · rw [hnone] at hxs
      cases hxs

/-- A call that gets a number nobody has stays apart from all others. -/
theorem Apart.update (h : Apart calls)
    (hown : ∀ x ∈ calls, x.1 ≠ id → ∀ seq, c'.seq? = some seq → x.2.seq? ≠ some seq) :
    Apart (Table.update id (fun _ => c') calls) where
  single := by rw [Table.keys_update]; exact h.single
  distinct x hx y hy seq hxs hys := by
    rcases (Table.mem_update_iff h.single).mp hx with ⟨hxid, -, -, hxc⟩ | ⟨hxid, hx⟩
    · rcases (Table.mem_update_iff h.single).mp hy with ⟨hyid, -, -, -⟩ | ⟨hyid, hy⟩
      · rw [hxid, hyid]
      · exact absurd hys (hown y hy hyid seq (hxc ▸ hxs))
    · rcases (Table.mem_update_iff h.single).mp hy with ⟨hyid, -, -, hyc⟩ | ⟨hyid, hy⟩
      · exact absurd hxs (hown x hx hxid seq (hyc ▸ hys))
      · exact h.distinct x hx y hy seq hxs hys

end Engine

end LanguageRelay
