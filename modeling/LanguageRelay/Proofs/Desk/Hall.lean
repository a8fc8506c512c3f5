import LanguageRelay.Engine.Calls
import Mathlib.Data.Set.Insert
/-!
# The hall before the desk

Handlers that need the analysis server come to the desk. The first of them
starts it, those that come meanwhile stand in line and are woken one at a time,
and those that come once it is in use are served at once. The *hall* is what of
an engine matters to this: who has come and where each of them stands, the line
and the lock, and the jobs that will make them go on.

A hall is *tended* (`Hall.Tended`) if calls come to be served in the order in
which they were made, save that a call which is served at once goes ahead of
those in line. Each thing that can happen in a hall is followed here on its own.
-/

namespace LanguageRelay

/-- Where a call stands with the desk. -/
inductive Place where
  /-- It has not begun. -/
  | fresh
  | inLine
  /-- It starts the analysis server. -/
  | starting
  /-- It asks nothing of the desk, or nothing more. -/
  | beyond
deriving DecidableEq, Repr

/-- Where a call stands that waits for a command. -/
def Continuation.place : Continuation → Place
  | .answer _ => .beyond
  | .startup _ => .starting

/-- Where a call stands, by what it waits for. To shut down asks nothing of the
desk. -/
def Stage.place : Stage → Place
  | .created (.handle .shutdown) => .beyond
  | .created (.handle _) => .fresh
  | .queued _ => .inLine
  | .asking _ _ _ _ _ next => next.place
  | _ => .beyond

/-- The handler that a call starts the analysis server for, if it does. -/
def Continuation.handler? : Continuation → Option Handler
  | .answer _ => none
  | .startup h => some h

/-- The handler for which a call needs the analysis server, if it needs it. -/
def Stage.handler? : Stage → Option Handler
  | .created (.handle .shutdown) => none
  | .created (.handle h) => some h
  | .queued h => some h
  | .asking _ _ _ _ _ next => next.handler?
  | _ => none

/-- Who asks nothing of the desk needs the analysis server for no handler. -/
theorem Stage.handler?_of_beyond {stage : Stage} (h : stage.place = .beyond) :
    stage.handler? = none := by
  cases stage with
  | created work =>
    cases work with
    | handle handler => cases handler <;> first | rfl | cases h
    | _ => rfl
  | asking i seq a watch outcome next => cases next <;> first | rfl | cases h
  | queued handler => cases h
  | _ => rfl

/-- A call that waits for a command has begun, and left the line. -/
theorem Continuation.place_ne (next : Continuation) :
    next.place ≠ .fresh ∧ next.place ≠ .inLine := by
  cases next <;> simp [Continuation.place]

/-- A call as it is seen in the hall. -/
structure Caller where
  number : Nat
  role : Role
  place : Place
  handler? : Option Handler

/-- A handler is served: it goes on, with the relay it needs. -/
structure Serving where
  call : Nat
  relay : Nat
  handler : Handler
  /-- The calls in line that it goes ahead of. -/
  passed : List Nat

/-- A call may be served after this one: it was made later, or was passed. -/
def Serving.Before (s : Serving) (call : Nat) : Prop :=
  s.call < call ∨ (call < s.call ∧ call ∈ s.passed)

/-- What of an engine matters to those who come to the desk. -/
structure Hall where
  callers : Set Caller
  /-- The last number given to a call. -/
  made : Nat
  jobs : List Job
  timers : List (Timer Job)
  line : List Ticket
  locked : Bool
  current : Option Nat
  /-- How often the analysis server was started. -/
  launches : Nat
  ended : List (String × Except Failure Answer)

namespace Hall

/-- A hall to which nobody has come. -/
def empty : Hall := ⟨∅, 0, [], [], [], false, none, 0, []⟩

/-- A caller is to be served yet. One in line that was cancelled is not. -/
def Awaits (h : Hall) (c : Caller) : Prop :=
  match c.place with
  | .fresh | .starting => True
  | .inLine => ∃ t ∈ h.line, t.call = c.number ∧ t.signal ≠ .cancelled
  | .beyond => False

/-- The analysis server was started in vain: it takes one start more before it is
in use. -/
def Wasted (h : Hall) : Prop :=
  1 ≤ h.launches ∧ (h.locked = true ∨ h.current.isSome → 1 < h.launches)

/-- A client was told of a failure: its call was cancelled, or the analysis server
was started in vain. -/
def Failed (h : Hall) (client : String) : Prop :=
  ∃ f, (client, .error f) ∈ h.ended ∧ (f = .cancelled ∨ h.Wasted)

/-- A handler that was called, by its number and the name of the client, has
been served, is in the hall, or has failed. -/
def Accounts (h : Hall) (served : List Serving) (entry : Nat × String) : Prop :=
  entry.1 ∈ served.map Serving.call ∨
    (∃ c ∈ h.callers, c.number = entry.1 ∧ c.role = .client entry.2 ∧ c.place ≠ .beyond) ∨
    h.Failed entry.2

/-- **The hall is tended**, with these handlers served so far of those called. -/
structure Tended (served : List Serving) (roll : List (Nat × String)) (h : Hall) : Prop where
  single : ∀ c ∈ h.callers, ∀ c' ∈ h.callers, c.number = c'.number → c = c'
  made : ∀ c ∈ h.callers, c.number ≤ h.made
  known : ∀ id, .resume id ∈ h.jobs → id ≤ h.made
  timers : ∀ t ∈ h.timers, ∀ id, t.job ≠ .resume id
  /-- Whoever has not begun will, in the order of the numbers, and came after all
  that have. -/
  due : ∀ c ∈ h.callers, c.place = .fresh → .resume c.number ∈ h.jobs
  turns : h.jobs.Pairwise fun job job' => ∀ c ∈ h.callers, ∀ c' ∈ h.callers, c.place = .fresh →
    c'.place = .fresh → job = .resume c.number → job' = .resume c'.number → c.number < c'.number
  behind : ∀ c ∈ h.callers, ∀ c' ∈ h.callers, c.place = .fresh →
    (c'.place = .inLine ∨ c'.place = .starting) → c'.number < c.number
  /-- The line is in order, and made of those who stand in it. -/
  ascending : (h.line.map Ticket.call).Pairwise (· < ·)
  ticketed : ∀ t ∈ h.line, ∃ c ∈ h.callers, c.number = t.call ∧ c.place = .inLine
  standing : ∀ c ∈ h.callers, c.place = .inLine → ∃ t ∈ h.line, t.call = c.number
  /-- Only the first in line is woken, and only while nobody is at the desk. -/
  front : ∀ t ∈ h.line.tail, t.signal ≠ .raised
  free : ∀ t ∈ h.line, t.signal = .raised → h.locked = false
  /-- Whoever was woken or cancelled goes on. -/
  woken : ∀ t ∈ h.line, t.signal ≠ .pending → .resume t.call ∈ h.jobs
  /-- One call at a time starts the analysis server, and it came before all that
  are in line. -/
  alone : ∀ c ∈ h.callers, ∀ c' ∈ h.callers, c.place = .starting → c'.place = .starting →
    c.number = c'.number
  busy : ∀ c ∈ h.callers, c.place = .starting → h.locked = true ∧ h.current = none
  first : ∀ c ∈ h.callers, c.place = .starting → ∀ t ∈ h.line, t.signal ≠ .cancelled →
    c.number < t.call
  /-- The desk is not taken once the analysis server is in use, and else to start
  it. -/
  opened : h.current.isSome → h.locked = false
  manned : h.locked = true → 1 ≤ h.launches
  /-- Calls were served in order, and whoever is to be served comes after. -/
  order : served.Pairwise fun s s' => s.Before s'.call
  later : ∀ s ∈ served, ∀ c ∈ h.callers, h.Awaits c → s.Before c.number
  given : ∀ s ∈ served, s.call ≤ h.made
  accounted : ∀ entry ∈ roll, h.Accounts served entry

/-- **The first in line does not wait for nothing**: while nobody is at the desk,
it has been woken. -/
def Vacant (h : Hall) : Prop :=
  h.locked = false → ∀ t ∈ h.line.head?, t.signal ≠ .pending

/-- A call that is not in the hall comes before all who are, and after all that
were served. -/
structure Foremost (served : List Serving) (id : Nat) (h : Hall) : Prop where
  served : ∀ s ∈ served, s.Before id
  fresh : ∀ c ∈ h.callers, c.place = .fresh → id < c.number
  line : ∀ t ∈ h.line, t.signal ≠ .cancelled → id < t.call
  starting : ∀ c ∈ h.callers, c.place ≠ .starting

/-- All who are to be served come after the foremost. -/
theorem Foremost.before {h : Hall} {served : List Serving} {s : Serving} {c : Caller}
    (hforemost : h.Foremost served s.call) (hc : c ∈ h.callers) (hawaits : h.Awaits c) :
    s.Before c.number := by
  unfold Awaits at hawaits
  split at hawaits
  · exact .inl (hforemost.fresh c hc ‹_›)
  · exact absurd ‹_› (hforemost.starting c hc)
  · obtain ⟨t, hmem, hcall, hsignal⟩ := hawaits
    exact .inl (hcall ▸ hforemost.line t hmem hsignal)
  · exact hawaits.elim

/-- The hall without a caller, who has left the line too. -/
def without (id : Nat) (h : Hall) : Hall :=
  { h with
    callers := {c | c ∈ h.callers ∧ c.number ≠ id}
    line := h.line.filter fun t => t.call ≠ id }

/-- The hall with one caller more. -/
def joined (c : Caller) (h : Hall) : Hall := { h with callers := insert c h.callers }

/-- The first in line is woken, unless it has been. -/
def wakeFirst (h : Hall) : Hall :=
  match h.line with
  | ⟨id, .pending⟩ :: rest =>
    { h with line := ⟨id, .raised⟩ :: rest, jobs := h.jobs ++ [.resume id] }
  | _ => h

variable {h : Hall} {served : List Serving} {roll : List (Nat × String)} {id : Nat}
variable {rest : List Job} {job : Job} {role : Role} {handler? : Option Handler}

/-- A caller awaits its turn wherever its ticket is good. -/
theorem Awaits.mono {h' : Hall} {c : Caller} (hawaits : h'.Awaits c)
    (hline : ∀ t ∈ h'.line, t.call = c.number → t.signal ≠ .cancelled →
      ∃ u ∈ h.line, u.call = c.number ∧ u.signal ≠ .cancelled) : h.Awaits c := by
  unfold Awaits at hawaits ⊢
  split at hawaits
  · trivial
  · trivial
  · obtain ⟨t, hmem, hcall, hsignal⟩ := hawaits
    exact hline t hmem hcall hsignal
  · exact hawaits

/-- A failure stays one while the starts in vain do. -/
theorem Failed.mono {h' : Hall} {client : String} (hfailed : h.Failed client)
    (hended : h'.ended = h.ended) (hwasted : h.Wasted → h'.Wasted) : h'.Failed client :=
  hfailed.imp fun _ hf => ⟨hended ▸ hf.1, hf.2.imp_right hwasted⟩

/-- What is accounted for stays so while the starts in vain do. -/
theorem Accounts.mono {h' : Hall} {entry : Nat × String} (hentry : h.Accounts served entry)
    (hcallers : h'.callers = h.callers) (hended : h'.ended = h.ended)
    (hwasted : h.Wasted → h'.Wasted) : h'.Accounts served entry :=
  hentry.imp_right fun hrest => hrest.imp (fun hc => hcallers ▸ hc) fun hfailed =>
    hfailed.mono hended hwasted

theorem tended_empty : Hall.empty.Tended [] [] := by
  constructor <;> simp [Hall.empty]

namespace Tended

/-- The caller with a ticket stands in line. -/
theorem inLine_of_ticket (ht : h.Tended served roll) {t : Ticket} (hmem : t ∈ h.line)
    {c : Caller} (hc : c ∈ h.callers) (hnumber : c.number = t.call) : c.place = .inLine := by
  obtain ⟨c', hc', hnumber', hplace⟩ := ht.ticketed t hmem
  rwa [ht.single c hc c' hc' (hnumber.trans hnumber'.symm)]

/-- What is asked of the roll may be less. -/
theorem enrolled (ht : h.Tended served roll) {roll' : List (Nat × String)}
    (hroll : ∀ entry ∈ roll', h.Accounts served entry) : h.Tended served roll' :=
  { ht with accounted := hroll }

/-- **What is done away from the desk**, and wakes none who has not begun, leaves
the hall tended. -/
theorem aside (ht : h.Tended served roll) {js : List Job} {ts : List (Timer Job)}
    (more : List (String × Except Failure Answer))
    (hjs : ∀ id, .resume id ∈ js → id ≤ h.made ∧
      ∀ c ∈ h.callers, c.number = id → c.place ≠ .fresh)
    (hts : ∀ t ∈ ts, ∀ id, t.job ≠ .resume id) :
    Tended served roll { h with jobs := h.jobs ++ js, timers := ts, ended := h.ended ++ more } :=
  { ht with
    known := fun id hid => (List.mem_append.mp hid).elim (ht.known id) fun hid => (hjs id hid).1
    timers := hts
    due := fun c hc hfresh => List.mem_append_left _ (ht.due c hc hfresh)
    turns := by
      refine List.pairwise_append.mpr ⟨ht.turns, ?_, ?_⟩
      · refine List.pairwise_iff_getElem.mpr fun i j hi hj _ c hc c' _ hfresh _ hjob _ => ?_
        exact absurd hfresh ((hjs _ (hjob ▸ List.getElem_mem hi)).2 c hc rfl)
      · rintro job - job' hjob' c - c' hc' - hfresh' - rfl
        exact absurd hfresh' ((hjs _ hjob').2 c' hc' rfl)
    woken := fun t hmem hsignal => List.mem_append_left _ (ht.woken t hmem hsignal)
    accounted := fun entry hentry => (ht.accounted entry hentry).imp_right fun h =>
      h.imp_right fun ⟨f, hf, hwhy⟩ => ⟨f, List.mem_append_left _ hf, hwhy⟩ }

/-- A job that makes nobody go on is done. -/
theorem drop (ht : h.Tended served roll) (hjobs : h.jobs = job :: rest)
    (hfresh : ∀ c ∈ h.callers, c.place = .fresh → job ≠ .resume c.number)
    (hline : ∀ t ∈ h.line, t.signal ≠ .pending → job ≠ .resume t.call) :
    Tended served roll { h with jobs := rest } :=
  { ht with
    known := fun id hid => ht.known id (hjobs ▸ List.mem_cons_of_mem _ hid)
    due := fun c hc hplace => by
      have hmem := ht.due c hc hplace
      rw [hjobs] at hmem
      exact (List.mem_cons.mp hmem).resolve_left (hfresh c hc hplace).symm
    turns := (List.pairwise_cons.mp (hjobs ▸ ht.turns)).2
    woken := fun t hmem hsignal => by
      have hresume := ht.woken t hmem hsignal
      rw [hjobs] at hresume
      exact (List.mem_cons.mp hresume).resolve_left (hline t hmem hsignal).symm }

/-! ### A call leaves the hall -/

/-- **A call goes on**: it leaves the hall, and the line, by the job that wakes
it. -/
theorem depart (ht : h.Tended served roll) (hjobs : h.jobs = .resume id :: rest) :
    Tended served (roll.filter fun entry => entry.1 ≠ id) { h.without id with jobs := rest } where
  single c hc c' hc' := ht.single c hc.1 c' hc'.1
  made c hc := ht.made c hc.1
  known n hn := ht.known n (hjobs ▸ List.mem_cons_of_mem _ hn)
  timers := ht.timers
  due c hc hplace := by
    have hmem := ht.due c hc.1 hplace
    rw [hjobs] at hmem
    exact (List.mem_cons.mp hmem).resolve_left fun heq => hc.2 (Job.resume.inj heq)
  turns := (List.pairwise_cons.mp (hjobs ▸ ht.turns)).2.imp
    fun hlt c hc c' hc' => hlt c hc.1 c' hc'.1
  behind c hc c' hc' := ht.behind c hc.1 c' hc'.1
  ascending := ht.ascending.sublist (List.filter_sublist.map _)
  ticketed t hmem := by
    obtain ⟨hmem, hne⟩ := List.mem_filter.mp hmem
    obtain ⟨c, hc, hnumber, hplace⟩ := ht.ticketed t hmem
    exact ⟨c, ⟨hc, hnumber ▸ by simpa using hne⟩, hnumber, hplace⟩
  standing c hc hplace := by
    obtain ⟨t, hmem, hcall⟩ := ht.standing c hc.1 hplace
    exact ⟨t, List.mem_filter.mpr ⟨hmem, by simpa [hcall] using hc.2⟩, hcall⟩
  front t hmem := by
    refine ht.front t ?_
    -- the tail of what is left is left of the tail
    have hsub : (h.line.filter fun t => t.call ≠ id).tail.Sublist h.line.tail := by
      cases h.line with
      | nil => exact .slnil
      | cons u line =>
        rw [List.filter_cons]
        split
        · exact List.filter_sublist
        · exact (List.tail_sublist _).trans List.filter_sublist
    exact hsub.subset hmem
  free t hmem := ht.free t (List.mem_filter.mp hmem).1
  woken t hmem hsignal := by
    obtain ⟨hmem, hne⟩ := List.mem_filter.mp hmem
    have hresume := ht.woken t hmem hsignal
    rw [hjobs] at hresume
    refine (List.mem_cons.mp hresume).resolve_left fun heq => ?_
    simp [Job.resume.inj heq] at hne
  alone c hc c' hc' := ht.alone c hc.1 c' hc'.1
  busy c hc := ht.busy c hc.1
  first c hc hplace t hmem := ht.first c hc.1 hplace t (List.mem_filter.mp hmem).1
  opened := ht.opened
  manned := ht.manned
  order := ht.order
  later s hs c hc hawaits := ht.later s hs c hc.1 <| hawaits.mono fun t hmem hcall hsignal =>
    ⟨t, (List.mem_filter.mp hmem).1, hcall, hsignal⟩
  given := ht.given
  accounted entry hentry := by
    obtain ⟨hentry, hne⟩ := List.mem_filter.mp hentry
    rcases ht.accounted entry hentry with hserved | ⟨c, hc, hnumber, hrest⟩ | hfailed
    · exact .inl hserved
    · exact .inr (.inl ⟨c, ⟨hc, hnumber ▸ by simpa using hne⟩, hnumber, hrest⟩)
    · exact .inr (.inr hfailed)

/-- The first to begin of those who have not comes before all others in the hall,
but those in line. -/
theorem fresh_departs (ht : h.Tended served roll) (hjobs : h.jobs = .resume id :: rest)
    {c : Caller} (hc : c ∈ h.callers) (hnumber : c.number = id) (hplace : c.place = .fresh) :
    (∀ s ∈ served, s.Before id) ∧
      (∀ d ∈ (h.without id).callers, d.place = .fresh → id < d.number) ∧
      ∀ d ∈ (h.without id).callers, d.place = .inLine ∨ d.place = .starting → d.number < id := by
  subst hnumber
  refine ⟨fun s hs => ht.later s hs c hc (by simp [Awaits, hplace]), fun d hd hfresh => ?_,
    fun d hd hbegun => ht.behind c hc d hd.1 hplace hbegun⟩
  -- the job of the other is behind that of this one
  have hmem := ht.due d hd.1 hfresh
  rw [hjobs] at hmem
  have hrest := (List.mem_cons.mp hmem).resolve_left fun heq => hd.2 (Job.resume.inj heq)
  have hturns := ht.turns
  rw [hjobs] at hturns
  exact (List.pairwise_cons.mp hturns).1 _ hrest c hc d hd.1 hplace hfresh rfl rfl

/-- Whoever starts the analysis server comes before all others in the hall. -/
theorem starting_departs (ht : h.Tended served roll) {c : Caller} (hc : c ∈ h.callers)
    (hnumber : c.number = id) (hplace : c.place = .starting) :
    (h.without id).Foremost served id where
  served s hs := hnumber ▸ ht.later s hs c hc (by simp [Awaits, hplace])
  fresh d hd hfresh := hnumber ▸ ht.behind d hd.1 c hc hfresh (.inr hplace)
  line t hmem hsignal := hnumber ▸ ht.first c hc hplace t (List.mem_filter.mp hmem).1 hsignal
  starting d hd hstarting := hd.2 (hnumber ▸ ht.alone d hd.1 c hc hstarting hplace)

/-- Whoever is woken in line comes before all others in the hall. -/
theorem raised_departs (ht : h.Tended served roll) {t : Ticket} (hmem : t ∈ h.line)
    (hcall : t.call = id) (hsignal : t.signal = .raised) :
    (h.without id).Foremost served id := by
  subst hcall
  obtain ⟨c, hc, hnumber, hplace⟩ := ht.ticketed t hmem
  refine ⟨fun s hs => ?_, fun d hd hfresh => ?_, fun u hu _ => ?_, fun d hd hstarting => ?_⟩
  · refine hnumber ▸ ht.later s hs c hc ?_
    rw [Awaits, hplace]
    exact ⟨t, hmem, hnumber.symm, by simp [hsignal]⟩
  · exact hnumber ▸ ht.behind d hd.1 c hc hfresh (.inl hplace)
  · -- only the first in line is woken, and the line is in order
    obtain ⟨hu, hne⟩ := List.mem_filter.mp hu
    have hascending := ht.ascending
    have hfront := ht.front
    cases hline : h.line with
    | nil =>
      rw [hline] at hmem
      cases hmem
    | cons v line =>
      rw [hline] at hmem hu hascending hfront
      obtain rfl : t = v := (List.mem_cons.mp hmem).resolve_right
        fun htail => hfront t htail hsignal
      have htail := (List.mem_cons.mp hu).resolve_left fun heq => by simp [heq] at hne
      exact (List.pairwise_cons.mp hascending).1 _ (List.mem_map_of_mem htail)
  · have hlocked := (ht.busy d hd.1 hstarting).1
    rw [ht.free t hmem hsignal] at hlocked
    cases hlocked

/-- Nobody else in line has been woken. -/
theorem unraised_of_raised (ht : h.Tended served roll) {t : Ticket} (hmem : t ∈ h.line)
    (hcall : t.call = id) (hsignal : t.signal = .raised) :
    ∀ u ∈ (h.without id).line, u.signal ≠ .raised := by
  intro u hu hraised
  obtain ⟨hu, hne⟩ := List.mem_filter.mp hu
  have hfront := ht.front
  cases hline : h.line with
  | nil => simp [hline] at hmem
  | cons v line =>
    rw [hline] at hmem hu hfront
    obtain rfl := (List.mem_cons.mp hmem).resolve_right fun htail => hfront t htail hsignal
    obtain rfl := (List.mem_cons.mp hu).resolve_right fun htail => hfront u htail hraised
    simp [hcall] at hne

/-! ### A call comes to the hall -/

/-- The roll is complete again when the one that was left off is accounted for. -/
theorem reenroll (ht : h.Tended served (roll.filter fun entry => entry.1 ≠ id))
    (hown : ∀ entry ∈ roll, entry.1 = id → h.Accounts served entry) : h.Tended served roll := by
  refine ht.enrolled fun entry hentry => ?_
  by_cases hid : entry.1 = id
  · exact hown entry hentry hid
  · exact ht.accounted entry (List.mem_filter.mpr ⟨hentry, by simpa using hid⟩)

/-- A caller more does not unsettle what is accounted for. -/
theorem accounts_joined {entry : Nat × String} {c : Caller} (hentry : h.Accounts served entry) :
    (h.joined c).Accounts served entry :=
  hentry.imp_right fun hrest => hrest.imp_left fun ⟨d, hd, hrest⟩ =>
    ⟨d, Set.mem_insert_of_mem _ hd, hrest⟩

/-- What holds of any two callers holds with one caller more. -/
theorem pairs_insert {R : Caller → Caller → Prop} {callers : Set Caller} {c : Caller}
    (hall : ∀ d ∈ callers, ∀ d' ∈ callers, R d d') (hself : R c c)
    (hnew : ∀ d ∈ callers, R c d ∧ R d c) :
    ∀ d ∈ insert c callers, ∀ d' ∈ insert c callers, R d d' := by
  rintro d (rfl | hd) d' (rfl | hd')
  · exact hself
  · exact (hnew d' hd').1
  · exact (hnew d hd).2
  · exact hall d hd d' hd'

/-- **A call comes to the hall** that asks nothing of the desk, or has taken it to
start the analysis server. -/
theorem joined (ht : h.Tended served roll) {c : Caller}
    (hnew : ∀ d ∈ h.callers, d.number ≠ c.number) (hmade : c.number ≤ h.made)
    (hplace : c.place = .beyond ∨ c.place = .starting ∧ h.Foremost served c.number ∧
      h.locked = true ∧ h.current = none) :
    (h.joined c).Tended served roll := by
  have hfresh : c.place ≠ .fresh := by
    rcases hplace with hplace | ⟨hplace, -⟩ <;> simp [hplace]
  have hline : c.place ≠ .inLine := by
    rcases hplace with hplace | ⟨hplace, -⟩ <;> simp [hplace]
  have hstarts : c.place ≠ .beyond → h.Foremost served c.number ∧ h.locked = true ∧
      h.current = none := fun hbeyond => (hplace.resolve_left hbeyond).2
  have hstarting : c.place = .starting → h.Foremost served c.number ∧ h.locked = true ∧
      h.current = none := fun hplace => hstarts (by simp [hplace])
  exact { ht with
    single := pairs_insert ht.single (fun _ => rfl) fun d hd =>
      ⟨fun heq => absurd heq.symm (hnew d hd), fun heq => absurd heq (hnew d hd)⟩
    made := Set.forall_mem_insert.mpr ⟨hmade, ht.made⟩
    due := Set.forall_mem_insert.mpr ⟨fun h => absurd h hfresh, ht.due⟩
    turns := ht.turns.imp fun hlt => pairs_insert hlt (fun h => absurd h hfresh) fun d _ =>
      ⟨fun h => absurd h hfresh, fun _ h => absurd h hfresh⟩
    behind := pairs_insert ht.behind (fun h => absurd h hfresh) fun d hd =>
      ⟨fun h => absurd h hfresh,
        fun h hbegun => (hstarting (hbegun.resolve_left hline)).1.fresh d hd h⟩
    ticketed := fun t hmem => (ht.ticketed t hmem).imp fun d hd =>
      ⟨Set.mem_insert_of_mem _ hd.1, hd.2⟩
    standing := Set.forall_mem_insert.mpr ⟨fun h => absurd h hline, ht.standing⟩
    alone := pairs_insert ht.alone (fun _ _ => rfl) fun d hd =>
      ⟨fun h h' => absurd h' ((hstarting h).1.starting d hd),
        fun h h' => absurd h ((hstarting h').1.starting d hd)⟩
    busy := Set.forall_mem_insert.mpr ⟨fun h => (hstarting h).2, ht.busy⟩
    first := Set.forall_mem_insert.mpr ⟨fun h => (hstarting h).1.line, ht.first⟩
    later := fun s hs => Set.forall_mem_insert.mpr
      ⟨fun h => (hstarts fun hbeyond => by simp [Awaits, hbeyond] at h).1.served s hs,
        ht.later s hs⟩
    accounted := fun entry hentry => accounts_joined (ht.accounted entry hentry) }

/-- **A call stands in line**, behind all who do. -/
theorem queued (ht : h.Tended served roll) (role : Role) (handler? : Option Handler)
    (hnew : ∀ d ∈ h.callers, d.number ≠ id)
    (hmade : id ≤ h.made) (hserved : ∀ s ∈ served, s.Before id)
    (hfresh : ∀ d ∈ h.callers, d.place = .fresh → id < d.number)
    (hbegun : ∀ d ∈ h.callers, d.place = .inLine ∨ d.place = .starting → d.number < id) :
    Tended served roll
      { h.joined ⟨id, role, .inLine, handler?⟩ with line := h.line ++ [⟨id, .pending⟩] } := by
  have hbefore : ∀ t ∈ h.line, t.call < id := fun t hmem => by
    obtain ⟨d, hd, hnumber, hplace⟩ := ht.ticketed t hmem
    exact hnumber ▸ hbegun d hd (.inl hplace)
  have hlast : ∀ t : Ticket, t ∈ h.line ++ [⟨id, .pending⟩] → t.signal ≠ .pending → t ∈ h.line :=
    fun t hmem hsignal => (List.mem_append.mp hmem).resolve_right fun hlast => by
      simp [List.mem_singleton.mp hlast] at hsignal
  exact { ht with
    single := pairs_insert ht.single (fun _ => rfl) fun d hd =>
      ⟨fun heq => absurd heq.symm (hnew d hd), fun heq => absurd heq (hnew d hd)⟩
    made := Set.forall_mem_insert.mpr ⟨hmade, ht.made⟩
    due := Set.forall_mem_insert.mpr ⟨nofun, ht.due⟩
    turns := ht.turns.imp fun hlt => pairs_insert hlt nofun fun d _ => ⟨nofun, fun _ => nofun⟩
    behind := pairs_insert ht.behind nofun fun d hd => ⟨nofun, fun h _ => hfresh d hd h⟩
    ascending := by
      rw [List.map_append]
      refine List.pairwise_append.mpr ⟨ht.ascending, List.pairwise_singleton _ _, ?_⟩
      intro n hn m hm
      obtain ⟨t, hmem, rfl⟩ := List.mem_map.mp hn
      rw [List.mem_singleton.mp hm]
      exact hbefore t hmem
    ticketed := fun t hmem => by
      rcases List.mem_append.mp hmem with hmem | hmem
      · obtain ⟨d, hd, hrest⟩ := ht.ticketed t hmem
        exact ⟨d, Set.mem_insert_of_mem _ hd, hrest⟩
      · rw [List.mem_singleton.mp hmem]
        exact ⟨_, Set.mem_insert _ _, rfl, rfl⟩
    standing := Set.forall_mem_insert.mpr
      ⟨fun _ => ⟨_, List.mem_append_right _ (List.mem_singleton_self _), rfl⟩,
        fun d hd hplace => (ht.standing d hd hplace).imp fun t ht =>
          ⟨List.mem_append_left _ ht.1, ht.2⟩⟩
    front := fun t hmem hsignal => by
      have hfront := ht.front t
      cases hline : h.line with
      | nil => simp [hline] at hmem
      | cons u line =>
        rw [hline] at hmem hfront
        rcases List.mem_append.mp hmem with hmem | hmem
        · exact hfront hmem hsignal
        · simp [List.mem_singleton.mp hmem] at hsignal
    free := fun t hmem hsignal => ht.free t (hlast t hmem (by simp [hsignal])) hsignal
    woken := fun t hmem hsignal => ht.woken t (hlast t hmem hsignal) hsignal
    alone := pairs_insert ht.alone nofun fun d hd => ⟨nofun, fun _ => nofun⟩
    busy := Set.forall_mem_insert.mpr ⟨nofun, ht.busy⟩
    first := Set.forall_mem_insert.mpr ⟨nofun, fun d hd hplace t hmem hsignal => by
      rcases List.mem_append.mp hmem with hmem | hmem
      · exact ht.first d hd hplace t hmem hsignal
      · rw [List.mem_singleton.mp hmem]
        exact hbegun d hd (.inr hplace)⟩
    later := fun s hs => Set.forall_mem_insert.mpr ⟨fun _ => hserved s hs, fun d hd hawaits => by
      refine ht.later s hs d hd (hawaits.mono fun t hmem hcall hsignal => ?_)
      refine ⟨t, (List.mem_append.mp hmem).resolve_right fun hlast => ?_, hcall, hsignal⟩
      rw [List.mem_singleton.mp hlast] at hcall
      exact hnew d hd hcall.symm⟩
    accounted := fun entry hentry => accounts_joined (ht.accounted entry hentry) }

/-- **A call is made**, and is to begin when its turn comes. -/
theorem arrives (ht : h.Tended served roll) {place : Place}
    (hplace : place = .fresh ∨ place = .beyond) :
    Tended served roll { h.joined ⟨h.made + 1, role, place, handler?⟩ with
      made := h.made + 1
      jobs := h.jobs ++ [.resume (h.made + 1)] } := by
  have hline : place ≠ .inLine := by rcases hplace with rfl | rfl <;> simp
  have hstarting : place ≠ .starting := by rcases hplace with rfl | rfl <;> simp
  have hbelow : ∀ d ∈ h.callers, d.number < h.made + 1 := fun d hd =>
    Nat.lt_succ_of_le (ht.made d hd)
  exact { ht with
    single := pairs_insert ht.single (fun _ => rfl) fun d hd =>
      ⟨fun heq => absurd heq.symm (hbelow d hd).ne, fun heq => absurd heq (hbelow d hd).ne⟩
    made := Set.forall_mem_insert.mpr ⟨Nat.le_refl _, fun d hd => (hbelow d hd).le⟩
    known := fun id hid => by
      rcases List.mem_append.mp hid with hid | hid
      · exact Nat.le_succ_of_le (ht.known id hid)
      · exact (Job.resume.inj (List.mem_singleton.mp hid)).le
    due := Set.forall_mem_insert.mpr
      ⟨fun _ => List.mem_append_right _ (List.mem_singleton_self _),
        fun d hd hfresh => List.mem_append_left _ (ht.due d hd hfresh)⟩
    turns := by
      refine List.pairwise_append.mpr ⟨?_, List.pairwise_singleton _ _, ?_⟩
      · -- no job was for the call that is made
        refine ht.turns.imp_of_mem fun hjob hjob' hlt => pairs_insert hlt ?_ fun d _ => ⟨?_, ?_⟩
        · rintro - - rfl
          exact absurd (ht.known _ hjob) (Nat.not_succ_le_self _)
        · rintro - - rfl
          exact absurd (ht.known _ hjob) (Nat.not_succ_le_self _)
        · rintro - - - rfl
          exact absurd (ht.known _ hjob') (Nat.not_succ_le_self _)
      · rintro job hjob job' hjob' d hd d' hd' - - rfl hresume
        obtain rfl := List.mem_singleton.mp hjob'
        rw [← Job.resume.inj hresume]
        exact Nat.lt_succ_of_le (ht.known _ hjob)
    behind := pairs_insert ht.behind
      (fun _ h => (h.elim hline hstarting).elim) fun d hd =>
      ⟨fun _ _ => hbelow d hd, fun _ h => (h.elim hline hstarting).elim⟩
    ticketed := fun t hmem => (ht.ticketed t hmem).imp fun d hd =>
      ⟨Set.mem_insert_of_mem _ hd.1, hd.2⟩
    standing := Set.forall_mem_insert.mpr ⟨fun h => absurd h hline, ht.standing⟩
    woken := fun t hmem hsignal => List.mem_append_left _ (ht.woken t hmem hsignal)
    alone := pairs_insert ht.alone (fun _ _ => rfl) fun d hd =>
      ⟨fun h => absurd h hstarting, fun _ h => absurd h hstarting⟩
    busy := Set.forall_mem_insert.mpr ⟨fun h => absurd h hstarting, ht.busy⟩
    first := Set.forall_mem_insert.mpr ⟨fun h => absurd h hstarting, ht.first⟩
    later := fun s hs => Set.forall_mem_insert.mpr
      ⟨fun _ => .inl (Nat.lt_succ_of_le (ht.given s hs)), ht.later s hs⟩
    given := fun s hs => Nat.le_succ_of_le (ht.given s hs)
    accounted := fun entry hentry => accounts_joined (ht.accounted entry hentry) }

/-! ### At the desk -/

/-- A start in vain stays so when there is one more. -/
theorem wasted_taken (hwasted : h.Wasted) :
    Wasted { h with locked := true, launches := h.launches + 1 } :=
  ⟨Nat.succ_pos _, fun _ => Nat.succ_lt_succ hwasted.1⟩

/-- A call takes the desk to start the analysis server: none in line is about to,
and it is not in use. -/
theorem taken (ht : h.Tended served roll) (hraised : ∀ t ∈ h.line, t.signal ≠ .raised)
    (hcurrent : h.current = none) :
    Tended served roll { h with locked := true, launches := h.launches + 1 } :=
  { ht with
    free := fun t hmem hsignal => absurd hsignal (hraised t hmem)
    busy := fun c hc hplace => ⟨rfl, hcurrent⟩
    opened := fun h => by simp [hcurrent] at h
    manned := fun _ => Nat.succ_pos _
    accounted := fun entry hentry => (ht.accounted entry hentry).mono rfl rfl wasted_taken }

/-- A start in vain stays so when the desk is left, unless the analysis server is
in use out of nowhere. -/
theorem wasted_left {current : Option Nat} (hwasted : h.Wasted)
    (hcurrent : current.isSome → h.locked = true ∨ h.current.isSome) :
    Wasted { h with current, locked := false } :=
  ⟨hwasted.1, fun huse => hwasted.2 (hcurrent (huse.resolve_left nofun))⟩

/-- The desk is left by whoever started the analysis server, which is in use from
now on or not. -/
theorem left (ht : h.Tended served roll) (hstarting : ∀ c ∈ h.callers, c.place ≠ .starting)
    {current : Option Nat} (hcurrent : current.isSome → h.locked = true ∨ h.current.isSome) :
    Tended served roll { h with current, locked := false } :=
  { ht with
    free := fun _ _ _ => rfl
    busy := fun c hc hplace => absurd hplace (hstarting c hc)
    opened := fun _ => rfl
    manned := nofun
    accounted := fun entry hentry => (ht.accounted entry hentry).mono rfl rfl fun hwasted =>
      wasted_left hwasted hcurrent }

/-- The analysis server is not in use any more. -/
theorem vacated (ht : h.Tended served roll) : Tended served roll { h with current := none } :=
  { ht with
    busy := fun c hc hplace => ⟨(ht.busy c hc hplace).1, rfl⟩
    opened := nofun
    accounted := fun entry hentry => (ht.accounted entry hentry).mono rfl rfl fun hwasted =>
      ⟨hwasted.1, fun huse => hwasted.2 (.inl (huse.resolve_right nofun))⟩ }

/-- Whoever stands in line is made to go on. -/
theorem posted (ht : h.Tended served roll) {t : Ticket} (hmem : t ∈ h.line) :
    Tended served roll { h with jobs := h.jobs ++ [.resume t.call] } := by
  obtain ⟨c, hc, hnumber, -⟩ := ht.ticketed t hmem
  have hjob : ∀ id, .resume id ∈ [Job.resume t.call] → id ≤ h.made ∧
      ∀ d ∈ h.callers, d.number = id → d.place ≠ .fresh := by
    intro id hid
    rw [Job.resume.inj (List.mem_singleton.mp hid)]
    exact ⟨hnumber ▸ ht.made c hc, fun d hd hown => by simp [ht.inLine_of_ticket hmem hd hown]⟩
  simpa using ht.aside [] hjob ht.timers

/-- The same calls stand in line, and none that was cancelled is not. -/
theorem relined (ht : h.Tended served roll) (line : List Ticket)
    (hcalls : line.map Ticket.call = h.line.map Ticket.call)
    (hkept : ∀ t ∈ line, t.signal ≠ .cancelled →
      ∃ u ∈ h.line, u.call = t.call ∧ u.signal ≠ .cancelled)
    (hfront : ∀ t ∈ line.tail, t.signal ≠ .raised)
    (hfree : ∀ t ∈ line, t.signal = .raised → h.locked = false)
    (hwoken : ∀ t ∈ line, t.signal ≠ .pending → .resume t.call ∈ h.jobs) :
    Tended served roll { h with line } :=
  { ht with
    ascending := hcalls ▸ ht.ascending
    ticketed := fun t hmem => by
      have hcall : t.call ∈ h.line.map Ticket.call := hcalls ▸ List.mem_map_of_mem hmem
      obtain ⟨u, hu, heq⟩ := List.mem_map.mp hcall
      exact heq ▸ ht.ticketed u hu
    standing := fun c hc hplace => by
      obtain ⟨t, hmem, hcall⟩ := ht.standing c hc hplace
      have hnumber : c.number ∈ h.line.map Ticket.call := List.mem_map.mpr ⟨t, hmem, hcall⟩
      exact List.mem_map.mp (hcalls ▸ hnumber)
    front := hfront
    free := hfree
    woken := hwoken
    first := fun c hc hplace t hmem hsignal => by
      obtain ⟨u, hu, hcall, hsignal'⟩ := hkept t hmem hsignal
      exact hcall ▸ ht.first c hc hplace u hu hsignal'
    later := fun s hs c hc hawaits => ht.later s hs c hc <| hawaits.mono
      fun t hmem hcall hsignal => by
        obtain ⟨u, hu, heq, hsignal'⟩ := hkept t hmem hsignal
        exact ⟨u, hu, heq.trans hcall, hsignal'⟩
    accounted := ht.accounted }

/-- **The first in line is woken** when nobody is at the desk. -/
theorem wakeFirst (ht : h.Tended served roll) (hfree : h.locked = false) :
    h.wakeFirst.Tended served roll := by
  unfold Hall.wakeFirst
  split
  · rename_i id line hline
    have hhead : (⟨id, .pending⟩ : Ticket) ∈ h.line := hline ▸ List.mem_cons_self
    refine (ht.posted hhead).relined (⟨id, .raised⟩ :: line) (by simp [hline])
      (fun t hmem hsignal => ?_) (by simpa [hline] using ht.front) (fun _ _ _ => hfree)
      fun t hmem hsignal => ?_
    · rcases List.mem_cons.mp hmem with rfl | hmem
      · exact ⟨_, hhead, rfl, by simp⟩
      · exact ⟨t, hline ▸ List.mem_cons_of_mem _ hmem, rfl, hsignal⟩
    · rcases List.mem_cons.mp hmem with rfl | hmem
      · exact List.mem_append_right _ (List.mem_singleton_self _)
      · exact List.mem_append_left _ (ht.woken t (hline ▸ List.mem_cons_of_mem _ hmem) hsignal)
  · exact ht

/-- **A call in line is cancelled**, and goes on to leave the line. -/
theorem cancelled (ht : h.Tended served roll) (hstands : ∃ t ∈ h.line, t.call = id) :
    Tended served roll { h with
      line := h.line.map fun t => if t.call = id then { t with signal := .cancelled } else t
      jobs := h.jobs ++ [.resume id] } := by
  obtain ⟨own, hown, rfl⟩ := hstands
  have hcalls : (h.line.map fun t => if t.call = own.call then
      { t with signal := Signal.cancelled } else t).map Ticket.call = h.line.map Ticket.call := by
    rw [List.map_map]
    refine List.map_congr_left fun t _ => ?_
    simp only [Function.comp_apply]
    split <;> rfl
  -- a ticket is as it was, or that of the call
  have hold : ∀ t ∈ h.line.map fun t => if t.call = own.call then
      { t with signal := Signal.cancelled } else t,
      t ∈ h.line ∨ t.call = own.call ∧ t.signal = .cancelled := by
    intro t hmem
    obtain ⟨u, hu, rfl⟩ := List.mem_map.mp hmem
    by_cases hcall : u.call = own.call
    · exact .inr (by simp [hcall])
    · exact .inl (by simpa [hcall] using hu)
  refine (ht.posted hown).relined _ hcalls (fun t hmem hsignal => ?_) (fun t hmem hsignal => ?_)
    (fun t hmem hsignal => ?_) fun t hmem hsignal => ?_
  · rcases hold t hmem with hmem | ⟨-, hcancelled⟩
    · exact ⟨t, hmem, rfl, hsignal⟩
    · exact absurd hcancelled hsignal
  · rw [← List.map_tail] at hmem
    obtain ⟨u, hu, rfl⟩ := List.mem_map.mp hmem
    split at hsignal
    · cases hsignal
    · exact ht.front u hu hsignal
  · rcases hold t hmem with hmem | ⟨-, hcancelled⟩
    · exact ht.free t hmem hsignal
    · rw [hcancelled] at hsignal
      cases hsignal
  · rcases hold t hmem with hmem | ⟨hcall, -⟩
    · exact List.mem_append_left _ (ht.woken t hmem hsignal)
    · exact List.mem_append_right _ (by simp [hcall])

/-- **A handler is served** that has left the hall: all who are to be served come
after it. -/
theorem serves (ht : h.Tended served roll) {s : Serving} (hserved : ∀ s' ∈ served, s'.Before s.call)
    (hmade : s.call ≤ h.made) (hafter : ∀ c ∈ h.callers, h.Awaits c → s.Before c.number) :
    h.Tended (served ++ [s]) roll :=
  { ht with
    order := List.pairwise_append.mpr ⟨ht.order, List.pairwise_singleton _ _, fun s' hs' _ hs =>
      List.mem_singleton.mp hs ▸ hserved s' hs'⟩
    later := fun s' hs' => (List.mem_append.mp hs').elim (ht.later s')
      fun hs' => List.mem_singleton.mp hs' ▸ hafter
    given := fun s' hs' => (List.mem_append.mp hs').elim (ht.given s')
      fun hs' => List.mem_singleton.mp hs' ▸ hmade
    accounted := fun entry hentry => (ht.accounted entry hentry).imp_left fun hserved => by
      rw [List.map_append]
      exact List.mem_append_left _ hserved }

/-! ### At rest -/

end Tended

/-- Nobody comes before the foremost by waking the first in line. -/
theorem Foremost.wakeFirst (hforemost : h.Foremost served id) :
    h.wakeFirst.Foremost served id := by
  unfold Hall.wakeFirst
  split
  · rename_i first rest hline
    refine { hforemost with line := fun t hmem hsignal => ?_ }
    rcases List.mem_cons.mp hmem with rfl | hmem
    · exact hforemost.line ⟨first, .pending⟩ (hline ▸ List.mem_cons_self) (by simp)
    · exact hforemost.line t (hline ▸ List.mem_cons_of_mem _ hmem) hsignal
  · exact hforemost

/-- Waking the first in line starts nothing. -/
theorem wasted_wakeFirst : h.wakeFirst.Wasted ↔ h.Wasted := by
  unfold Hall.wakeFirst
  split <;> rfl

theorem ended_wakeFirst (h : Hall) : h.wakeFirst.ended = h.ended := by
  unfold Hall.wakeFirst
  split <;> rfl

/-- When the first in line has been woken, it does not wait for nothing. -/
theorem vacant_wakeFirst (h : Hall) : h.wakeFirst.Vacant := by
  unfold wakeFirst
  split
  · intro _ t ht
    simp only [List.head?_cons, Option.mem_some_iff] at ht
    simp [← ht]
  · rename_i hline
    intro _ t ht hsignal
    obtain ⟨call, signal⟩ := t
    obtain ⟨rest, heq⟩ := List.head?_eq_some_iff.mp ht
    obtain rfl : signal = .pending := hsignal
    exact hline call rest heq

end Hall

end LanguageRelay
