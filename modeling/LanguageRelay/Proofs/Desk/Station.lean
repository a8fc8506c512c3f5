import LanguageRelay.Engine.Calls
import Mathlib.Data.List.Induction
import Mathlib.Data.Multiset.Count
import Mathlib.Data.Multiset.Filter
/-!
# The station

What of an engine matters to its processes is the relay in use, the lock, what was
launched, and the calls at work on a process: the *station*. Seven kinds of
*dealing* are had with it (`Station.Step`): a process is launched, is up, is put
to use, fails to come to use, a shutdown runs, a process has ended, or is
abandoned.

`Station.Sound` is the invariant, over the dealings had so far. At most one start is
in progress, just while the lock is held, and none while a relay is in use. And every
process that came up is in exactly one hand: of the call that starts it, in use, of
a call that stops it, stopped, or lost.
-/

namespace LanguageRelay

/-- What a call is at work on. -/
inductive Task where
  /-- It starts the analysis server for a handler. Once the process is up, its relay
  has introduced itself under a number. -/
  | start (h : Handler) (introduced : Option (Nat × Nat))
  /-- It stops the process of a relay. -/
  | stop (relay : Nat)

/-- The process a task is about, once it is up. -/
def Task.relay? : Task → Option Nat
  | .start _ introduced => introduced.map Prod.fst
  | .stop i => some i

/-- The task is a start. -/
def Task.starts : Task → Bool
  | .start .. => true
  | .stop _ => false

@[simp] theorem Task.relay?_start (h : Handler) (introduced : Option (Nat × Nat)) :
    (Task.start h introduced).relay? = introduced.map Prod.fst := rfl

@[simp] theorem Task.relay?_stop (i : Nat) : (Task.stop i).relay? = some i := rfl

@[simp] theorem Task.starts_start (h : Handler) (introduced : Option (Nat × Nat)) :
    (Task.start h introduced).starts = true := rfl

@[simp] theorem Task.starts_stop (i : Nat) : (Task.stop i).starts = false := rfl

/-- A call at work on a process. -/
structure Post where
  call : Nat
  role : Role
  task : Task

/-- What of an engine matters to its processes. -/
structure Station where
  current : Option Nat
  locked : Bool
  launches : List Launch
  /-- How many processes came up. -/
  made : Nat
  posts : Multiset Post

/-- What is had to do with processes. -/
inductive Dealing where
  /-- A call has a process launched. -/
  | launch (call : Nat)
  /-- The process launched last is up. -/
  | connect (relay : Nat)
  /-- A relay is put to use: its analysis server has agreed. -/
  | ready (relay : Nat)
  /-- A start fails, and with it the call that made it. Its process may be up. -/
  | fail (call : Nat) (relay : Option Nat) (f : Failure)
  /-- A shutdown runs. -/
  | shut
  /-- A process has ended for a call that stops it. -/
  | stop (relay : Nat)
  /-- A call that stops a process ends before that has ended. -/
  | abandon (relay : Nat)

namespace Dealing

/-- The process that is lost by a dealing: nobody has it in hand, and it was not
stopped. -/
def lost? : Dealing → Option Nat
  | fail _ relay _ => relay
  | abandon i => some i
  | _ => none

/-- The processes that are lost along a log of dealings. -/
def losses (log : List Dealing) : List Nat := log.filterMap lost?

/-- The relays put to use, after those put to use already. -/
def putToUse (relays : List Nat) : Dealing → List Nat
  | ready i => relays ++ [i]
  | shut => []
  | _ => relays

/-- The relays that were put to use since a shutdown ran last. -/
def inUse (log : List Dealing) : List Nat := log.foldl putToUse []

/-- A process is launched. -/
def isLaunch : Dealing → Bool
  | launch _ => true
  | _ => false

/-- How many processes were launched along a log of dealings. -/
def launched (log : List Dealing) : Nat := log.countP isLaunch

theorem launched_snoc (log : List Dealing) (d : Dealing) :
    launched (log ++ [d]) = launched log + if d.isLaunch then 1 else 0 := by
  rw [launched, List.countP_append, List.countP_singleton]
  rfl

theorem losses_append (log log' : List Dealing) : losses (log ++ log') = losses log ++ losses log' :=
  List.filterMap_append

theorem inUse_snoc (log : List Dealing) (d : Dealing) :
    inUse (log ++ [d]) = putToUse (inUse log) d :=
  List.foldl_concat ..

/-- Relays in use are so until a shutdown runs. -/
theorem inUse_prefix (log : List Dealing) {ds : List Dealing} (hkept : .shut ∉ ds) :
    inUse log <+: inUse (log ++ ds) := by
  induction ds using List.reverseRecOn with
  | nil => simp
  | append_singleton ds d ih =>
    have hkept' : .shut ∉ ds ∧ d ≠ .shut := by simpa [eq_comm, not_or] using hkept
    rw [← List.append_assoc, inUse_snoc]
    refine (ih hkept'.1).trans ?_
    cases d with
    | ready i => exact List.prefix_append ..
    | shut => exact absurd rfl hkept'.2
    | _ => exact List.prefix_refl _

end Dealing

namespace Station

/-- A station where nothing has happened. -/
def empty : Station := ⟨none, false, [], 0, 0⟩

/-- The station without the post of a call. -/
def without (id : Nat) (s : Station) : Station :=
  { s with posts := s.posts.filter fun p => p.call ≠ id }

/-- **The dealings** one can have with a station. -/
inductive Step (s : Station) : Dealing → Station → Prop where
  | launch (call : Nat) (role : Role) (h : Handler) (root : Option String)
      (hcurrent : s.current = none) (hlocked : s.locked = false) :
      Step s (.launch call)
        { s with
          locked := true
          launches := s.launches ++ [⟨root, false, 0, none⟩]
          posts := ⟨call, role, .start h none⟩ ::ₘ s.posts }
  | connect {call : Nat} {role : Role} {h : Handler} {rest : Multiset Post} (seq : Nat)
      (root : Option String) (hposts : s.posts = ⟨call, role, .start h none⟩ ::ₘ rest) :
      Step s (.connect s.made)
        { s with
          launches := s.launches.dropLast ++ [⟨root, true, 0, some s.made⟩]
          made := s.made + 1
          posts := ⟨call, role, .start h (some (s.made, seq))⟩ ::ₘ rest }
  | ready {call i seq : Nat} {role : Role} {h : Handler} {rest : Multiset Post}
      (hposts : s.posts = ⟨call, role, .start h (some (i, seq))⟩ ::ₘ rest) :
      Step s (.ready i) { s with current := some i, locked := false, posts := rest }
  | fail {call : Nat} {role : Role} {h : Handler} {introduced : Option (Nat × Nat)}
      {rest : Multiset Post} (f : Failure)
      (hposts : s.posts = ⟨call, role, .start h introduced⟩ ::ₘ rest) :
      Step s (.fail call (introduced.map Prod.fst) f) { s with locked := false, posts := rest }
  /-- A shutdown finds nothing in use. -/
  | idle (hcurrent : s.current = none) : Step s .shut s
  | letGo {i : Nat} (call : Nat) (role : Role) (hcurrent : s.current = some i) :
      Step s .shut { s with current := none, posts := ⟨call, role, .stop i⟩ ::ₘ s.posts }
  | stop {call i : Nat} {role : Role} {rest : Multiset Post}
      (hposts : s.posts = ⟨call, role, .stop i⟩ ::ₘ rest) :
      Step s (.stop i) { s with launches := s.launches.map (Engine.Launch.stop i), posts := rest }
  | abandon {call i : Nat} {role : Role} {rest : Multiset Post}
      (hposts : s.posts = ⟨call, role, .stop i⟩ ::ₘ rest) :
      Step s (.abandon i) { s with posts := rest }

/-- Dealings one after another. -/
inductive Run : Station → List Dealing → Station → Prop where
  | nil (s : Station) : Run s [] s
  | cons {s s' s'' : Station} {d : Dealing} {rest : List Dealing} (hstep : Step s d s')
      (hrest : Run s' rest s'') : Run s (d :: rest) s''

/-- No relay introduces itself but over the connection of a process that is up. -/
theorem Step.introduced {s s' : Station} {d : Dealing} (h : Step s d s')
    (hquiet : ∀ i, d ≠ .connect i) {p : Post} (hp : p ∈ s'.posts) {handler : Handler}
    {q : Nat × Nat} (htask : p.task = .start handler (some q)) : p ∈ s.posts := by
  cases h with
  | launch call role h root hcurrent hlocked =>
    rcases Multiset.mem_cons.mp hp with rfl | hp
    · cases htask
    · exact hp
  | connect seq root hposts => exact absurd rfl (hquiet _)
  | ready hposts => exact hposts ▸ Multiset.mem_cons_of_mem hp
  | fail f hposts => exact hposts ▸ Multiset.mem_cons_of_mem hp
  | idle hcurrent => exact hp
  | letGo call role hcurrent =>
    rcases Multiset.mem_cons.mp hp with rfl | hp
    · cases htask
    · exact hp
  | stop hposts => exact hposts ▸ Multiset.mem_cons_of_mem hp
  | abandon hposts => exact hposts ▸ Multiset.mem_cons_of_mem hp

theorem Run.append {s s' s'' : Station} {ds ds' : List Dealing} (h : Run s ds s')
    (h' : Run s' ds' s'') : Run s (ds ++ ds') s'' := by
  induction h with
  | nil s => exact h'
  | cons hstep _ ih => exact .cons hstep (ih h')

/-! ## In whose hands a process is -/

/-- The launch is that of a process which was stopped. -/
def isStopped (i : Nat) (l : Launch) : Bool := l.relay = some i ∧ l.stopped ≠ 0

@[simp] theorem isStopped_fresh (i : Nat) (root : Option String) (started : Bool)
    (relay : Option Nat) : isStopped i ⟨root, started, 0, relay⟩ = false := by
  simp [isStopped]

/-- How many hands a process is in: of calls, in use, stopped. -/
def hands (i : Nat) (s : Station) : Nat :=
  s.posts.countP (fun p => p.task.relay? = some i) + s.current.toList.count i +
    s.launches.countP (isStopped i)

/-- **The station is in order**, after a log of dealings. -/
structure Sound (log : List Dealing) (s : Station) : Prop where
  /-- The lock is held just while a start is in progress, and there is one at most. -/
  held : s.posts.countP (fun p => p.task.starts = true) = if s.locked then 1 else 0
  opened : s.current.isSome → s.locked = false
  launched : s.launches.length = Dealing.launched log
  /-- Processes are numbered as they come up. -/
  numbered : s.launches.filterMap Launch.relay = List.range s.made
  started : ∀ l ∈ s.launches, l.started = l.relay.isSome
  /-- The process that a call waits for is the one launched last. -/
  awaited : ∀ p ∈ s.posts, ∀ h, p.task = .start h none →
    ∃ earlier root, s.launches = earlier ++ [⟨root, false, 0, none⟩]
  /-- **Every process that came up is in exactly one hand, or lost.** -/
  hands : ∀ i, s.hands i + (Dealing.losses log).count i = if i < s.made then 1 else 0
  inUse : Dealing.inUse log = s.current.toList

theorem sound_empty : Station.empty.Sound [] := by
  constructor <;> simp [Station.empty, Station.hands, Dealing.losses, Dealing.launched, Dealing.inUse]

/-- To stop a process stops no other. -/
theorem countP_stop (i j : Nat) (launches : List Launch) :
    (launches.map (Engine.Launch.stop i)).countP (isStopped j) =
      if j = i then (launches.filterMap Launch.relay).count i
      else launches.countP (isStopped j) := by
  rw [List.countP_map, List.count_filterMap]
  split
  · rename_i hj
    subst hj
    refine List.countP_congr fun l _ => ?_
    by_cases hl : l.relay = some j <;> simp [isStopped, Engine.Launch.stop, hl]
  · rename_i hj
    refine List.countP_congr fun l _ => ?_
    by_cases hl : l.relay = some i <;> simp [isStopped, Engine.Launch.stop, hl, Ne.symm hj]

theorem relay_stop (i : Nat) (l : Launch) : (Engine.Launch.stop i l).relay = l.relay := by
  unfold Engine.Launch.stop
  split <;> rfl

theorem started_stop (i : Nat) (l : Launch) : (Engine.Launch.stop i l).started = l.started := by
  unfold Engine.Launch.stop
  split <;> rfl

variable {s s' : Station} {log : List Dealing} {d : Dealing}

namespace Sound

/-- While a start is in progress the lock is held, nothing is in use, and there is no
other. -/
theorem busy (h : s.Sound log) {p : Post} {rest : Multiset Post} (hposts : s.posts = p ::ₘ rest)
    (hp : p.task.starts = true) :
    s.locked = true ∧ s.current = none ∧ rest.countP (fun p => p.task.starts = true) = 0 := by
  have hheld := h.held
  rw [hposts, Multiset.countP_cons, if_pos hp] at hheld
  have hlocked : s.locked = true := by
    by_contra hfree
    rw [if_neg hfree] at hheld
    exact Nat.succ_ne_zero _ hheld
  rw [if_pos hlocked] at hheld
  refine ⟨hlocked, ?_, Nat.succ.inj hheld⟩
  cases hcurrent : s.current with
  | none => rfl
  | some i => simpa [hlocked] using h.opened (by simp [hcurrent])

/-- A launch is one launch more. -/
theorem launched_step (h : s.Sound log) (hstep : Step s d s') :
    s'.launches.length = Dealing.launched (log ++ [d]) := by
  have hcount := h.launched
  rw [Dealing.launched_snoc]
  cases hstep with
  | connect seq root hposts =>
    obtain ⟨earlier, root', hlaunches⟩ :=
      h.awaited _ (hposts ▸ Multiset.mem_cons_self _ _) _ rfl
    simpa [hlaunches, Dealing.isLaunch] using hcount
  | _ => simpa [Dealing.isLaunch] using hcount

theorem inUse_step (h : s.Sound log) (hstep : Step s d s') :
    Dealing.inUse (log ++ [d]) = s'.current.toList := by
  rw [Dealing.inUse_snoc, h.inUse]
  cases hstep with
  | ready hposts =>
    rw [(h.busy hposts rfl).2.1]
    rfl
  | idle hcurrent =>
    rw [hcurrent]
    rfl
  | _ => rfl

/-- The lock is taken by a launch, and given back where the start is over. -/
theorem held_step (h : s.Sound log) (hstep : Step s d s') :
    s'.posts.countP (fun p => p.task.starts = true) = if s'.locked then 1 else 0 := by
  have hheld := h.held
  cases hstep with
  | launch call role handler root hcurrent hlocked =>
    rw [hlocked] at hheld
    simpa [Multiset.countP_cons] using hheld
  | connect seq root hposts =>
    obtain ⟨hlocked, -, hrest⟩ := h.busy hposts rfl
    simpa [Multiset.countP_cons, hlocked] using hrest
  | ready hposts => simpa using (h.busy hposts rfl).2.2
  | fail f hposts => simpa using (h.busy hposts rfl).2.2
  | idle hcurrent => exact hheld
  | letGo call role hcurrent => simpa [Multiset.countP_cons] using hheld
  | stop hposts => simpa [hposts, Multiset.countP_cons] using hheld
  | abandon hposts => simpa [hposts, Multiset.countP_cons] using hheld

theorem opened_step (h : s.Sound log) (hstep : Step s d s') :
    s'.current.isSome → s'.locked = false := by
  cases hstep with
  | launch call role handler root hcurrent hlocked => simp [hcurrent]
  | ready hposts => exact fun _ => rfl
  | fail f hposts => exact fun _ => rfl
  | letGo call role hcurrent => exact nofun
  | _ => exact h.opened

/-- A process that comes up is given the next number, and keeps it when it is stopped. -/
theorem numbered_step (h : s.Sound log) (hstep : Step s d s') :
    s'.launches.filterMap Launch.relay = List.range s'.made ∧
      ∀ l ∈ s'.launches, l.started = l.relay.isSome := by
  have hnumbered := h.numbered
  have hstarted := h.started
  cases hstep with
  | launch call role handler root hcurrent hlocked =>
    exact ⟨by simpa using hnumbered, by simpa [or_imp, forall_and] using hstarted⟩
  | connect seq root hposts =>
    obtain ⟨earlier, root', hlaunches⟩ :=
      h.awaited _ (hposts ▸ Multiset.mem_cons_self _ _) _ rfl
    simp only [hlaunches, List.filterMap_append, List.filterMap_cons_none, List.filterMap_nil,
      List.append_nil, List.mem_append, List.mem_singleton] at hnumbered hstarted
    simp only [hlaunches, List.dropLast_concat, List.mem_append, List.mem_singleton]
    refine ⟨by simp [hnumbered, List.range_succ], fun l hl => ?_⟩
    rcases hl with hl | rfl
    · exact hstarted l (.inl hl)
    · rfl
  | @stop call i role rest hposts =>
    refine ⟨?_, fun l hl => ?_⟩
    · rw [← hnumbered, List.filterMap_map]
      exact List.filterMap_congr fun l _ => relay_stop i l
    · obtain ⟨l', hl', rfl⟩ := List.mem_map.mp hl
      rw [started_stop, relay_stop]
      exact hstarted l' hl'
  | _ => exact ⟨hnumbered, hstarted⟩

/-- No start waits for a process once the start in progress has its own. -/
theorem awaited_step (h : s.Sound log) (hstep : Step s d s') :
    ∀ p ∈ s'.posts, ∀ h, p.task = .start h none →
      ∃ earlier root, s'.launches = earlier ++ [⟨root, false, 0, none⟩] := by
  -- where the start in progress goes on or is over, no other waits
  have hnone : ∀ {p : Post} {rest : Multiset Post}, s.posts = p ::ₘ rest → p.task.starts = true →
      ∀ q ∈ rest, ∀ handler, q.task ≠ .start handler none := by
    intro p rest hposts hp q hq handler htask
    exact Multiset.countP_eq_zero.mp (h.busy hposts hp).2.2 q hq (by rw [htask]; rfl)
  intro p hp handler htask
  cases hstep with
  | launch call role handler root hcurrent hlocked => exact ⟨_, root, rfl⟩
  | connect seq root hposts =>
    rcases Multiset.mem_cons.mp hp with rfl | hp
    · cases htask
    · exact absurd htask (hnone hposts rfl p hp handler)
  | ready hposts => exact absurd htask (hnone hposts rfl p hp handler)
  | fail f hposts => exact absurd htask (hnone hposts rfl p hp handler)
  | idle hcurrent => exact h.awaited p hp handler htask
  | letGo call role hcurrent =>
    rcases Multiset.mem_cons.mp hp with rfl | hp
    · cases htask
    · exact h.awaited p hp handler htask
  | @stop call i role rest hposts =>
    obtain ⟨earlier, root, hlaunches⟩ :=
      h.awaited p (hposts ▸ Multiset.mem_cons_of_mem hp) handler htask
    refine ⟨earlier.map (Engine.Launch.stop i), root, ?_⟩
    rw [hlaunches, List.map_append]
    rfl
  | abandon hposts => exact h.awaited p (hposts ▸ Multiset.mem_cons_of_mem hp) handler htask

/-- **Processes are handed on, or lost**: a call that is given one takes it from where it
was. -/
theorem hands_step (h : s.Sound log) (hstep : Step s d s') (j : Nat) :
    s'.hands j + (Dealing.losses (log ++ [d])).count j = if j < s'.made then 1 else 0 := by
  have hhands := h.hands j
  have hlost : Dealing.losses (log ++ [d]) = Dealing.losses log ++ d.lost?.toList := by
    rw [Dealing.losses_append]
    cases hd : d.lost? <;> simp [Dealing.losses, hd]
  cases hstep with
  | launch call role handler root hcurrent hlocked =>
    simpa [Station.hands, Multiset.countP_cons, isStopped, hlost, Dealing.lost?] using hhands
  | connect seq root hposts =>
    -- the process that comes up is in the hand of the call that waited for it
    obtain ⟨-, hcurrent, -⟩ := h.busy hposts rfl
    obtain ⟨earlier, root', hlaunches⟩ :=
      h.awaited _ (hposts ▸ Multiset.mem_cons_self _ _) _ rfl
    simp only [Station.hands, hposts, hlaunches, hcurrent, Multiset.countP_cons, List.countP_append,
      List.countP_singleton, isStopped_fresh, List.dropLast_concat, Task.relay?_start, hlost,
      Dealing.lost?, Option.map_none, Option.map_some, Option.toList_none, List.append_nil,
      Option.some.injEq, reduceCtorEq, if_false, Bool.false_eq_true] at hhands ⊢
    split at hhands <;> split <;> split <;> omega
  | ready hposts =>
    obtain ⟨-, hcurrent, -⟩ := h.busy hposts rfl
    simp only [Station.hands, hposts, hcurrent, Multiset.countP_cons, Task.relay?_start, hlost,
      Dealing.lost?, Option.map_some, Option.toList_none, Option.toList_some, List.append_nil,
      List.count_nil, List.count_singleton, Option.some.injEq, beq_iff_eq] at hhands ⊢
    omega
  | @fail call role handler introduced rest f hposts =>
    simp only [Station.hands, hposts, Multiset.countP_cons, Task.relay?_start, hlost,
      Dealing.lost?, List.count_append] at hhands ⊢
    cases introduced with
    | none => simpa using hhands
    | some introduced =>
      simp only [Option.map_some, Option.toList_some, List.count_singleton, Option.some.injEq,
        beq_iff_eq] at hhands ⊢
      omega
  | idle hcurrent => simpa [hlost, Dealing.lost?] using hhands
  | letGo call role hcurrent =>
    simp only [Station.hands, hcurrent, Multiset.countP_cons, Task.relay?_stop, hlost,
      Dealing.lost?, Option.toList_none, Option.toList_some, List.append_nil, List.count_nil,
      List.count_singleton, Option.some.injEq, beq_iff_eq] at hhands ⊢
    omega
  | @stop call i role rest hposts =>
    have hcount : (s.launches.filterMap Launch.relay).count i = if i < s.made then 1 else 0 := by
      rw [h.numbered, List.nodup_range.count]
      simp
    simp only [Station.hands, hposts, Multiset.countP_cons, Task.relay?_stop, countP_stop, hlost,
      Dealing.lost?, Option.toList_none, List.append_nil, Option.some.injEq] at hhands ⊢
    by_cases hj : j = i
    · subst hj
      simp only [if_true, hcount] at hhands ⊢
      split at hhands <;> omega
    · simp only [hj, Ne.symm hj, if_false] at hhands ⊢
      exact hhands
  | abandon hposts =>
    simp only [Station.hands, hposts, Multiset.countP_cons, Task.relay?_stop, hlost, Dealing.lost?,
      Option.toList_some, List.count_append, List.count_singleton, Option.some.injEq,
      beq_iff_eq] at hhands ⊢
    omega

/-- **Every dealing leaves the station in order.** -/
theorem step (h : s.Sound log) (hstep : Step s d s') : s'.Sound (log ++ [d]) where
  held := h.held_step hstep
  opened := h.opened_step hstep
  launched := h.launched_step hstep
  numbered := (h.numbered_step hstep).1
  started := (h.numbered_step hstep).2
  awaited := h.awaited_step hstep
  hands := h.hands_step hstep
  inUse := h.inUse_step hstep

/-- So do dealings one after another. -/
theorem run {ds : List Dealing} (h : s.Sound log) (hrun : Run s ds s') :
    s'.Sound (log ++ ds) := by
  induction hrun generalizing log with
  | nil s => simpa using h
  | cons hstep _ ih => simpa using ih (h.step hstep)

end Sound

end Station

end LanguageRelay
