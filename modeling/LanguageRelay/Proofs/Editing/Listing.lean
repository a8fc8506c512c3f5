import LanguageRelay.Proofs.Editing.Accounts
import LanguageRelay.Proofs.Relay.Discretion
/-!
# The list of commands that await a response

A command is listed while the call that wrote it waits, and taken off by its
response, by the closing of the connection, or by the call when it goes on. One
that cannot be written is not listed at all. `Tally` says that the list and the
calls tally: each entry is that of a call which waits for it, a call without its
outcome has its entry, and no such call is forgotten.

None of this depends on the connection being open, so it holds as well while
what is written is refused. A call that is about to move on is *out*: it has no
entry, and nothing is asked of it until it waits anew or ends.
-/

namespace LanguageRelay

/-- The entry under which the command of a call is listed, if it waits for
one. -/
def Call.listing? (c : Call) : Option Pending :=
  match c.stage with
  | .asking _ seq ask _ _ _ => some ⟨seq, ask.command, false⟩
  | _ => none

/-- An entry, whether it was given up or not. -/
def Pending.bare (p : Pending) : Pending := { p with settled := false }

variable {c : Call} {p : Pending} {seq : Nat}

@[simp] theorem Pending.seq_bare (p : Pending) : p.bare.seq = p.seq := rfl

@[simp] theorem Pending.bare_withdraw (seq : Nat) (p : Pending) :
    (p.withdraw seq).bare = p.bare := by
  unfold Pending.withdraw
  split <;> rfl

/-- A call has an entry just if it has a number. -/
theorem Call.seq?_eq (c : Call) : c.seq? = c.listing?.map Pending.seq := by
  obtain ⟨role, stage, cancelled⟩ := c
  cases stage <;> rfl

theorem Call.seq?_of_listing? (h : c.listing? = some p) : c.seq? = some p.seq := by
  rw [c.seq?_eq, h]
  rfl

/-- What a call waits for is the response to its command. -/
theorem Call.listing?_of_want? {command : String} (h : c.want? = some (.response seq command)) :
    c.listing? = some ⟨seq, command, false⟩ := by
  obtain ⟨ask, watch, next, hstage, rfl⟩ := Engine.want?_eq_response.mp h
  simp [Call.listing?, hstage]

namespace Engine

/-! ## What is written goes on -/

/-- The numbers of the commands in a record. -/
def recorded (record : List (Nat × Effect)) : List Int := Relay.numbers (record.map Prod.snd)

theorem recorded_append (record more : List (Nat × Effect)) :
    recorded (record ++ more) = recorded record ++ recorded more := by
  simp [recorded, Relay.numbers_append]

/-- **The engine has gone on**: commands written since have new numbers in
ascending order, no number given out before is listed anew, and none has come
to another call. -/
structure Stride (e e' : Engine) : Prop where
  last : (e.relay 0).link.last ≤ (e'.relay 0).link.last
  written : ∃ fx, e'.record = e.record ++ fx ∧ (recorded fx).Pairwise (· < ·) ∧
    ∀ k ∈ recorded fx, ((e.relay 0).link.last : Int) < k ∧ k ≤ (e'.relay 0).link.last
  listed : ∀ p ∈ (e'.relay 0).link.pending, p.seq ≤ (e.relay 0).link.last →
    ∃ q ∈ (e.relay 0).link.pending, q.bare = p.bare
  owners : ∀ x ∈ e'.calls, ∀ seq, x.2.seq? = some seq → seq ≤ (e.relay 0).link.last →
    ∃ y ∈ e.calls, y.1 = x.1 ∧ y.2.seq? = some seq

variable {b e e' e'' : Engine}

theorem Stride.trans (h : Stride e e') (h' : Stride e' e'') : Stride e e'' where
  last := Nat.le_trans h.last h'.last
  written := by
    have hlast := h.last
    have hlast' := h'.last
    obtain ⟨fx, hfx, hascending, hnumbers⟩ := h.written
    obtain ⟨fy, hfy, hascending', hnumbers'⟩ := h'.written
    refine ⟨fx ++ fy, by rw [hfy, hfx, List.append_assoc], ?_, fun k hk => ?_⟩
    · rw [recorded_append]
      exact List.pairwise_append.mpr ⟨hascending, hascending', fun k hk k' hk' =>
        Int.lt_of_le_of_lt (hnumbers k hk).2 (hnumbers' k' hk').1⟩
    · rw [recorded_append] at hk
      rcases List.mem_append.mp hk with hk | hk
      · have hle := hnumbers k hk
        omega
      · have hle := hnumbers' k hk
        omega
  listed p hp hle := by
    obtain ⟨q, hq, hbare⟩ := h'.listed p hp (Nat.le_trans hle h.last)
    have hseq : q.seq = p.seq := by simpa using congrArg Pending.seq hbare
    obtain ⟨q', hq', hbare'⟩ := h.listed q hq (hseq ▸ hle)
    exact ⟨q', hq', hbare'.trans hbare⟩
  owners x hx seq hseq hle := by
    obtain ⟨y, hy, hyx, hyseq⟩ := h'.owners x hx seq hseq (Nat.le_trans hle h.last)
    obtain ⟨z, hz, hzy, hzseq⟩ := h.owners y hy seq hyseq hle
    exact ⟨z, hz, hzy.trans hyx, hzseq⟩

/-- Where nothing is written, entries and numbers stay whose they were. -/
theorem Stride.of_unwritten (hlast : (e'.relay 0).link.last = (e.relay 0).link.last)
    (hrecord : ∃ fx, e'.record = e.record ++ fx ∧ recorded fx = [])
    (hlisted : ∀ p ∈ (e'.relay 0).link.pending, ∃ q ∈ (e.relay 0).link.pending, q.bare = p.bare)
    (howners : ∀ x ∈ e'.calls, ∀ seq, x.2.seq? = some seq →
      ∃ y ∈ e.calls, y.1 = x.1 ∧ y.2.seq? = some seq) : Stride e e' where
  last := Nat.le_of_eq hlast.symm
  written := by
    obtain ⟨fx, hfx, hnone⟩ := hrecord
    exact ⟨fx, hfx, by simp [hnone], by simp [hnone]⟩
  listed p hp _ := hlisted p hp
  owners x hx seq hseq _ := howners x hx seq hseq

theorem Stride.of_same (hlink : (e'.relay 0).link.last = (e.relay 0).link.last ∧
      (e'.relay 0).link.pending = (e.relay 0).link.pending)
    (hrecord : e'.record = e.record) (hcalls : e'.calls = e.calls) : Stride e e' :=
  .of_unwritten hlink.1 ⟨[], by simp [hrecord], rfl⟩ (fun p hp => ⟨p, hlink.2 ▸ hp, rfl⟩)
    fun x hx seq hseq => ⟨x, hcalls ▸ hx, rfl, hseq⟩

theorem Stride.refl (e : Engine) : Stride e e := .of_same ⟨rfl, rfl⟩ rfl rfl

/-- One command is written under the next number, and listed under it. -/
theorem Stride.of_asked {p : Pending} {name : String} {arguments : Json}
    (hlast : (e'.relay 0).link.last = (e.relay 0).link.last + 1)
    (hpending : (e'.relay 0).link.pending = (e.relay 0).link.pending ++ [p])
    (hnumber : p.seq = (e.relay 0).link.last + 1)
    (hrecord : e'.record = e.record ++ [(0, .sent ⟨(e.relay 0).nextSeq, name, arguments⟩)])
    (hcalls : ∀ x ∈ e'.calls, x.2.seq? = some ((e.relay 0).link.last + 1) ∨ x ∈ e.calls) :
    Stride e e' where
  last := by omega
  written := by
    refine ⟨_, hrecord, by simp [recorded, Relay.numbers], fun k hk => ?_⟩
    obtain rfl : k = ((e.relay 0).nextSeq : Int) := by simpa [recorded, Relay.numbers] using hk
    simp only [Relay.nextSeq, hlast]
    omega
  listed q hq hle := by
    rw [hpending] at hq
    rcases List.mem_append.mp hq with hq | hq
    · exact ⟨q, hq, rfl⟩
    · rw [List.mem_singleton.mp hq] at hle
      omega
  owners x hx seq hseq hle := by
    rcases hcalls x hx with hnew | hx
    · have hnext := Option.some.inj (hseq.symm.trans hnew)
      omega
    · exact ⟨x, hx, rfl, hseq⟩

/-! ## What holds of the list -/

/-- **The list tallies with the calls**, with some jobs of a turn left, and the
engine has gone on since an earlier one, `b`; one call may be out. -/
structure Tally (b : Engine) (out : Option Nat) (todo : List Job) (e : Engine) : Prop where
  stride : Stride b e
  alone : e.relays.length = 1
  collected : (e.relay 0).outbox = []
  apart : Apart e.calls
  made : ∀ x ∈ e.calls, x.1 ≤ e.lastCall
  jobs : ∀ job ∈ todo ++ e.agenda.ready, job.Local
  timers : ∀ t ∈ e.agenda.timers, t.job.Local
  distinct : ((e.relay 0).link.pending.map Pending.seq).Nodup
  bounded : ∀ p ∈ (e.relay 0).link.pending, p.seq ≤ (e.relay 0).link.last
  regular : ∀ x ∈ e.calls, x.2.Regular (e.relay 0).link.last
  /-- Each entry is that of a call. -/
  housed : ∀ p ∈ (e.relay 0).link.pending, ∃ x ∈ e.calls, out ≠ some x.1 ∧
    x.2.listing? = some p.bare
  /-- A call without its outcome has its entry. -/
  listed : ∀ x ∈ e.calls, out ≠ some x.1 → ∀ seq command,
    x.2.want? = some (.response seq command) → ⟨seq, command, false⟩ ∈ (e.relay 0).link.pending
  attended : ∀ x ∈ e.calls, out ≠ some x.1 →
    x.2.Attended x.1 (todo ++ e.agenda.ready) e.agenda.timers

variable {out : Option Nat} {todo done : List Job} {id : Nat} {c c' : Call} {r : Relay}

theorem Tally.relays (h : Tally b out todo e) : e.relays = [e.relay 0] := by
  obtain ⟨r, hr⟩ := List.length_eq_one_iff.mp h.alone
  rw [hr, relay_of_relays hr]

/-- A call has a number of its own. -/
theorem Tally.own (h : Tally b out todo e) (hcall : e.call? id = some c) {x : Nat × Call}
    (hx : x ∈ e.calls) (hid : x.1 ≠ id) (hseq : x.2.seq? = some seq) : c.seq? ≠ some seq :=
  fun hown => hid (h.apart.distinct x hx (id, c) (mem_of_call? hcall) seq hseq hown)

/-! ## What a relay does -/

/-- What is recorded of effects has their commands. -/
theorem recorded_noted (fx : List Effect) :
    recorded ((fx.filter Effect.noted).map fun effect => (0, effect)) = Relay.numbers fx := by
  induction fx with
  | nil => rfl
  | cons effect rest ih =>
    rw [show effect :: rest = [effect] ++ rest from rfl, List.filter_append, List.map_append,
      recorded_append, ih, Relay.numbers_append]
    congr 1
    cases effect <;> rfl

/-- The timers of calls are not a relay's to take back. -/
theorem mem_timers_heed (fx : List Effect) (delay : Int) {a : Agenda Job} {t : Timer Job}
    (h : t ∈ a.timers) (hcall : t.job.call?.isSome) :
    t ∈ (fx.foldl (Agenda.heed delay) a).timers := by
  induction fx generalizing a with
  | nil => exact h
  | cons effect rest ih =>
    refine ih ?_
    cases effect with
    | armed uri timer => exact List.mem_append_left _ h
    | disarmed uri timer =>
      refine List.mem_filter.mpr ⟨h, ?_⟩
      obtain ⟨due, job⟩ := t
      cases job <;> first | rfl | cases hcall
    | _ => exact h

/-- A call that is told an outcome keeps its entry. -/
theorem listing?_foldl_heed (fx : List Effect) (id : Nat) (c : Call) :
    (fx.foldl (Call.heed id) c).listing? = c.listing? := by
  rcases foldl_heed_cases fx id c with ⟨hsame, -⟩ | ⟨seq, ask, watch, next, o, hstage, -, htold⟩ |
    ⟨i, o, hstage, -, htold⟩
  · rw [hsame]
  · simp [htold, Call.listing?, hstage]
  · simp [htold, Call.listing?, hstage]

/-- A call that is told an outcome stays attended. -/
theorem attended_heed {jobs js : List Job} {timers timers' : List (Timer Job)} (fx : List Effect)
    (h : c.Attended id jobs timers) (hjs : c.Waits → ¬ (fx.foldl (Call.heed id) c).Waits →
      ∀ job, (fx.foldl (Call.heed id) c).alarm? id = some job → job ∈ js)
    (htimers : ∀ t ∈ timers, t.job.call?.isSome → t ∈ timers') :
    (fx.foldl (Call.heed id) c).Attended id (jobs ++ js) timers' := by
  have hgrown : c.Attended id (jobs ++ js) timers' :=
    h.mono (fun job hjob _ => List.mem_append_left _ hjob)
      fun t ht hcall => .inl (htimers t ht (by rw [hcall]; rfl))
  rcases foldl_heed_cases fx id c with ⟨hsame, -⟩ | ⟨seq, ask, watch, next, o, hstage, -, htold⟩ |
    ⟨i, o, hstage, -, htold⟩
  · rwa [hsame]
  · have halarm := hjs (by simp [Call.Waits, hstage]) (by simp [htold, Call.Waits])
    simp only [htold, Call.alarm?, Call.wakeup?] at halarm
    rw [htold]
    simp only [Call.Attended, hstage] at hgrown ⊢
    -- it is woken at once, or its outcome is passed on, unless it was woken before
    cases watch with
    | unbounded => exact fun _ => List.mem_append_right _ (halarm _ rfl)
    | windowed signal =>
      cases signal with
      | pending => exact ⟨hgrown.1, List.mem_append_right _ (halarm _ rfl)⟩
      | raised => exact hgrown
      | cancelled => exact hgrown
    | ending why => exact hgrown
  · rw [htold]
    trivial

/-- **What a relay did leaves the list in tally**, if it wrote commands under new
numbers, took entries off the list, and told the calls whose they were. -/
theorem Tally.takeIn (h : Tally b out todo e) (hnumbers : Relay.NumbersOn (e.relay 0) r)
    (hsub : r.link.pending.Sublist (e.relay 0).link.pending)
    (htold : ∀ p ∈ (e.relay 0).link.pending, p.settled = false →
      p ∈ r.link.pending ∨ ∃ o, .answered p.seq o ∈ r.outbox) :
    Tally b out todo (e.takeIn r) := by
  have hheeded := heeded_takeIn h.apart r
  have hsame := hheeded.same
  have hcalls : (e.takeIn r).calls =
      e.calls.map fun x => (x.1, r.outbox.foldl (Call.heed x.1) x.2) := hheeded.calls
  have hrecord : (e.takeIn r).record = e.record ++ _ := hheeded.record
  have hrelay : (e.takeIn r).relay 0 = { r with outbox := [] } := by
    rw [hsame]
    exact relay_setRelay h.alone _
  obtain ⟨js, hagenda, hlocal, hwoken⟩ := hheeded.agenda
  obtain ⟨fx, hfx, hascending, hbounds⟩ := hnumbers.written
  rw [h.collected, List.nil_append] at hfx
  have hstride : Stride e (e.takeIn r) := by
    refine ⟨by rw [hrelay]; exact hnumbers.last, ⟨_, hrecord, ?_⟩, fun p hp _ => ?_,
      fun x hx seq hseq _ => ?_⟩
    · rw [recorded_noted, hrelay, hfx]
      exact ⟨hascending, hbounds⟩
    · rw [hrelay] at hp
      exact ⟨p, hsub.subset hp, rfl⟩
    · rw [hcalls] at hx
      obtain ⟨y, hy, rfl⟩ := List.mem_map.mp hx
      exact ⟨y, hy, rfl, by simpa using hseq⟩
  refine ⟨h.stride.trans hstride, ?_, by rw [hrelay], ?_, fun x hx => ?_, fun job hjob => ?_,
    fun t ht => ?_, ?_, fun p hp => ?_, fun x hx => ?_, fun p hp => ?_,
    fun x hx hout seq command hwant => ?_, fun x hx hout => ?_⟩
  · rw [hsame]
    exact congrArg List.length (relays_setRelay h.alone _)
  · rw [hcalls]
    exact h.apart.map fun x => by simp
  · rw [hcalls] at hx
    obtain ⟨y, hy, rfl⟩ := List.mem_map.mp hx
    rw [hsame]
    exact h.made y hy
  · rw [hagenda] at hjob
    rcases List.mem_append.mp hjob with hjob | hjob
    · exact h.jobs job (List.mem_append_left _ hjob)
    · rcases List.mem_append.mp hjob with hjob | hjob
      · exact h.jobs job (List.mem_append_right _ hjob)
      · obtain ⟨id, hid⟩ := Option.isSome_iff_exists.mp (hlocal job hjob)
        exact local_of_call? hid
  · rw [hagenda] at ht
    exact timers_heed_local _ _ _ h.timers t ht
  · rw [hrelay]
    exact h.distinct.sublist (hsub.map _)
  · rw [hrelay] at hp ⊢
    exact Nat.le_trans (h.bounded p (hsub.subset hp)) hnumbers.last
  · rw [hcalls] at hx
    obtain ⟨y, hy, rfl⟩ := List.mem_map.mp hx
    rw [hrelay]
    exact regular_heed ((h.regular y hy).mono hnumbers.last) _ _
  · rw [hrelay] at hp
    obtain ⟨x, hx, hout, hentry⟩ := h.housed p (hsub.subset hp)
    rw [hcalls]
    refine ⟨_, List.mem_map_of_mem hx, hout, ?_⟩
    rw [← hentry]
    exact listing?_foldl_heed _ _ _
  · rw [hcalls] at hx
    obtain ⟨y, hy, rfl⟩ := List.mem_map.mp hx
    obtain ⟨hwant, hunmet⟩ := (want?_foldl_heed _ _ _ _).mp hwant
    rw [hrelay]
    exact (htold _ (h.listed y hy hout seq command hwant) rfl).resolve_right hunmet
  · rw [hcalls] at hx
    obtain ⟨y, hy, rfl⟩ := List.mem_map.mp hx
    rw [hagenda, ← List.append_assoc]
    exact attended_heed _ (h.attended y hy hout) (hwoken y hy)
      fun t ht hcall => mem_timers_heed _ _ ht hcall

/-- So an operation that answers no command does. -/
theorem Tally.discreet (h : Tally b out todo e) (hr : Relay.Discreet (e.relay 0) r) :
    Tally b out todo (e.takeIn r) :=
  h.takeIn hr.numbers (by rw [hr.pending]) fun p hp _ => .inl (by rwa [hr.pending])

/-! ## What becomes of a call -/

/-- Jobs of one call do not matter to another. -/
theorem attended_of_ne {x : Nat × Call} {ready : List Job} {timers : List (Timer Job)}
    (h : x.2.Attended x.1 (done ++ todo ++ ready) timers) (hown : ∀ job ∈ done, job.call? = some id)
    (hne : x.1 ≠ id) (js : List Job) : x.2.Attended x.1 (todo ++ (ready ++ js)) timers := by
  refine h.mono (fun job hjob hcall => ?_) fun t ht _ => .inl ht
  rw [List.append_assoc] at hjob
  rcases List.mem_append.mp hjob with hjob | hjob
  · exact absurd (Option.some.inj (hcall.symm.trans (hown job hjob))) hne
  · rw [← List.append_assoc]
    exact List.mem_append_left _ hjob

/-- Jobs that are done are missed by nobody but their call. -/
theorem Tally.jobs_of_done (done js : List Job) (h : Tally b out (done ++ todo) e)
    (hjs : ∀ job ∈ js, job.Local) : ∀ job ∈ todo ++ (e.agenda.ready ++ js), job.Local := by
  intro job hjob
  rw [← List.append_assoc] at hjob
  rcases List.mem_append.mp hjob with hjob | hjob
  · exact h.jobs job (by rw [List.append_assoc]; exact List.mem_append_right _ hjob)
  · exact hjs job hjob

/-- A relay set to itself changes nothing. -/
theorem Tally.setRelay_self (h : Tally b out todo e) : e.setRelay 0 (e.relay 0) = e := by
  have hset : e.relays.set 0 (e.relay 0) = e.relays := by rw [h.relays]; rfl
  exact congrArg (fun relays => { e with relays }) hset

/-- A call is set to something else, and the others stay as they are. -/
theorem mem_update_iff_of_call (h : Apart e.calls) (hcall : e.call? id = some c) {x : Nat × Call} :
    x ∈ Table.update id (fun _ => c') e.calls ↔ x = (id, c') ∨ x.1 ≠ id ∧ x ∈ e.calls := by
  rw [Table.mem_update_iff h.single]
  refine or_congr_left ⟨fun ⟨hid, _, _, hx⟩ => Prod.ext hid hx, ?_⟩
  rintro rfl
  exact ⟨rfl, c, mem_of_call? hcall, rfl⟩

/-- **One call changes, and keeps its entry**; entries may be given up, no other
call's among them. -/
theorem Tally.alter (done js : List Job) (h : Tally b out (done ++ todo) e)
    (hown : ∀ job ∈ done, job.call? = some id) (hcall : e.call? id = some c)
    (hout : out = none ∨ out = some id) (hjs : ∀ job ∈ js, job.Local) (houtbox : r.outbox = [])
    (hlast : r.link.last = (e.relay 0).link.last)
    (hbare : r.link.pending.map Pending.bare = (e.relay 0).link.pending.map Pending.bare)
    (hothers : ∀ p ∈ (e.relay 0).link.pending, p.settled = false → c.seq? ≠ some p.seq →
      p ∈ r.link.pending)
    (hentry : c'.listing? = c.listing?) (hregular : c'.Regular (e.relay 0).link.last)
    (hlisted : ∀ seq command, c'.want? = some (.response seq command) →
      ⟨seq, command, false⟩ ∈ r.link.pending)
    (hattended : c'.Attended id (todo ++ (e.agenda.ready ++ js)) e.agenda.timers) :
    Tally b none todo
      { e.setRelay 0 r with
        calls := Table.update id (fun _ => c') e.calls
        agenda := { e.agenda with ready := e.agenda.ready ++ js } } := by
  obtain ⟨e', he'⟩ : ∃ e', e' = { e.setRelay 0 r with
      calls := Table.update id (fun _ => c') e.calls
      agenda := { e.agenda with ready := e.agenda.ready ++ js } } := ⟨_, rfl⟩
  have hmem := mem_of_call? hcall
  have hcalls : e'.calls = Table.update id (fun _ => c') e.calls := by rw [he']
  have hrelay : e'.relay 0 = r := by rw [he']; exact relay_setRelay h.alone r
  have hagenda : e'.agenda = { e.agenda with ready := e.agenda.ready ++ js } := by rw [he']
  have hseq : c'.seq? = c.seq? := by rw [c'.seq?_eq, c.seq?_eq, hentry]
  have hsame : ∀ p ∈ r.link.pending, ∃ q ∈ (e.relay 0).link.pending, q.bare = p.bare := by
    intro p hp
    exact List.mem_map.mp (hbare ▸ List.mem_map_of_mem hp)
  have hnumber : ∀ {p q : Pending}, q.bare = p.bare → q.seq = p.seq := fun heq => by
    simpa using congrArg Pending.seq heq
  -- what is said of all calls is said of this one, and of the others as before
  have hcases : ∀ x, x ∈ e'.calls ↔ x = (id, c') ∨ x.1 ≠ id ∧ x ∈ e.calls := by
    intro x
    rw [hcalls]
    exact mem_update_iff_of_call h.apart hcall
  have hin : ∀ {x : Nat × Call}, x.1 ≠ id → out ≠ some x.1 := by
    rintro x hid rfl
    rcases hout with hout | hout
    · cases hout
    · exact hid (Option.some.inj hout)
  have hstride : Stride e e' := by
    refine .of_unwritten (by rw [hrelay, hlast]) ⟨[], by simp [he', setRelay], rfl⟩ ?_ ?_
    · rw [hrelay]
      exact hsame
    · intro x hx seq hxs
      rcases (hcases x).mp hx with rfl | ⟨-, hx⟩
      · exact ⟨_, hmem, rfl, hseq ▸ hxs⟩
      · exact ⟨x, hx, rfl, hxs⟩
  rw [← he']
  refine ⟨h.stride.trans hstride, ?_, by rw [hrelay, houtbox], ?_, fun x hx => ?_, ?_, ?_, ?_,
    fun p hp => ?_, fun x hx => ?_, fun p hp => ?_, fun x hx _ seq command hwant => ?_,
    fun x hx _ => ?_⟩
  · rw [he']
    exact congrArg List.length (relays_setRelay h.alone r)
  · rw [hcalls]
    exact h.apart.update fun x hx hid seq hown' hxs => h.own hcall hx hid hxs (hseq ▸ hown')
  · have hmade : e'.lastCall = e.lastCall := by rw [he']; rfl
    rw [hmade]
    rcases (hcases x).mp hx with rfl | ⟨-, hx⟩
    · exact h.made (id, c) hmem
    · exact h.made x hx
  · rw [hagenda]
    exact h.jobs_of_done done js hjs
  · rw [hagenda]
    exact h.timers
  · have hmap : r.link.pending.map Pending.seq = (e.relay 0).link.pending.map Pending.seq := by
      simpa [Function.comp_def] using congrArg (List.map Pending.seq) hbare
    rw [hrelay, hmap]
    exact h.distinct
  · rw [hrelay] at hp ⊢
    obtain ⟨q, hq, heq⟩ := hsame p hp
    rw [hlast, ← hnumber heq]
    exact h.bounded q hq
  · rw [hrelay, hlast]
    rcases (hcases x).mp hx with rfl | ⟨-, hx⟩
    · exact hregular
    · exact h.regular x hx
  · rw [hrelay] at hp
    obtain ⟨q, hq, heq⟩ := hsame p hp
    obtain ⟨x, hx, -, hxe⟩ := h.housed q hq
    rw [← heq]
    by_cases hid : x.1 = id
    · obtain ⟨i, d⟩ := x
      cases hid
      cases h.apart.eq hmem hx
      exact ⟨_, (hcases _).mpr (.inl rfl), by simp, hentry.trans hxe⟩
    · exact ⟨x, (hcases x).mpr (.inr ⟨hid, hx⟩), by simp, hxe⟩
  · rw [hrelay]
    rcases (hcases x).mp hx with rfl | ⟨hid, hx⟩
    · exact hlisted seq command hwant
    · refine hothers _ (h.listed x hx (hin hid) seq command hwant) rfl (h.own hcall hx hid ?_)
      exact Call.seq?_of_listing? (Call.listing?_of_want? hwant)
  · rw [hagenda]
    rcases (hcases x).mp hx with rfl | ⟨hid, hx⟩
    · exact hattended
    · exact attended_of_ne (h.attended x hx (hin hid)) hown hid js

/-- One call changes, and the list does not. -/
theorem Tally.amend (done js : List Job) (h : Tally b out (done ++ todo) e)
    (hown : ∀ job ∈ done, job.call? = some id) (hcall : e.call? id = some c)
    (hout : out = none ∨ out = some id) (hjs : ∀ job ∈ js, job.Local)
    (hentry : c'.listing? = c.listing?) (hregular : c'.Regular (e.relay 0).link.last)
    (hlisted : ∀ seq command, c'.want? = some (.response seq command) →
      ⟨seq, command, false⟩ ∈ (e.relay 0).link.pending)
    (hattended : c'.Attended id (todo ++ (e.agenda.ready ++ js)) e.agenda.timers) :
    Tally b none todo
      { e with
        calls := Table.update id (fun _ => c') e.calls
        agenda := { e.agenda with ready := e.agenda.ready ++ js } } := by
  have haltered := h.alter (r := e.relay 0) done js hown hcall hout hjs h.collected rfl rfl
    (fun p hp _ _ => hp) hentry hregular hlisted hattended
  rwa [h.setRelay_self] at haltered

/-- **A call gives its command up**: the entry is settled, and stays for as long
as the call does. -/
theorem Tally.withdraw (done js : List Job) (watch' : Watch) (h : Tally b none (done ++ todo) e)
    (hown : ∀ job ∈ done, job.call? = some id) (hcall : e.call? id = some c)
    (hjs : ∀ job ∈ js, job.Local) {ask : Ask} {watch : Watch} {next : Continuation}
    (hstage : c.stage = .asking 0 seq ask watch none next) (cancelled : Bool)
    (hattended : watch'.Attended id seq (todo ++ (e.agenda.ready ++ js)) e.agenda.timers
      (some (.error .cancelled)) cancelled) :
    Tally b none todo
      { e.mapRelay 0 (Relay.withdraw seq) with
        calls := Table.update id (fun _ =>
          ⟨c.role, .asking 0 seq ask watch' (some (.error .cancelled)) next, cancelled⟩) e.calls
        agenda := { e.agenda with ready := e.agenda.ready ++ js } } := by
  have hregular := h.regular _ (mem_of_call? hcall)
  have hstaged := hregular.stage
  rw [hstage] at hstaged
  refine h.alter done js hown hcall (.inl rfl) hjs h.collected rfl (by simp [Relay.withdraw])
    (fun p hp hopen hne => List.mem_map.mpr ⟨p, hp, if_neg fun heq => hne ?_⟩)
    (by simp [Call.listing?, hstage]) ⟨hregular.role, hstaged.1, hstaged.2.1, hstaged.2.2.1, by simp,
      by simp⟩ (fun seq' command hwant => ?_) hattended
  · rw [Call.seq?, hstage, heq]
  · simp [Call.want?] at hwant

/-- A call that waits for no command moves on. -/
theorem Tally.free (done : List Job) (h : Tally b none (done ++ todo) e)
    (hown : ∀ job ∈ done, job.call? = some id) (hcall : e.call? id = some c)
    (hentry : c.listing? = none) : Tally b (some id) todo e where
  stride := h.stride
  alone := h.alone
  collected := h.collected
  apart := h.apart
  made := h.made
  jobs := by simpa using h.jobs_of_done done [] (by simp)
  timers := h.timers
  distinct := h.distinct
  bounded := h.bounded
  regular := h.regular
  housed p hp := by
    obtain ⟨x, hx, -, hxe⟩ := h.housed p hp
    refine ⟨x, hx, fun heq => ?_, hxe⟩
    obtain ⟨i, d⟩ := x
    cases heq
    rw [← h.apart.eq (mem_of_call? hcall) hx, hentry] at hxe
    cases hxe
  listed x hx _ := h.listed x hx (by simp)
  attended x hx hout := by
    simpa using attended_of_ne (h.attended x hx (by simp)) hown (fun hid => hout (by rw [hid])) []

/-- **A call that has done with its command takes its entry along.** -/
theorem Tally.leave (done : List Job) (h : Tally b none (done ++ todo) e)
    (hown : ∀ job ∈ done, job.call? = some id) (hcall : e.call? id = some c)
    (hseq : c.seq? = some seq) :
    Tally b (some id) todo (e.leave id 0 seq) := by
  have hrelay : (e.leave id 0 seq).relay 0 = (e.relay 0).unlist seq :=
    relay_setRelay h.alone _
  have hmem : ∀ {p : Pending}, p ∈ ((e.relay 0).unlist seq).link.pending ↔
      p ∈ (e.relay 0).link.pending ∧ p.seq ≠ seq := fun {p} => by simp [Relay.unlist]
  have htimers : ∀ t ∈ e.agenda.timers, t.job.call? ≠ some id →
      t ∈ (e.leave id 0 seq).agenda.timers := by
    intro t ht hcall
    refine List.mem_filter.mpr ⟨ht, ?_⟩
    obtain ⟨due, job⟩ := t
    cases job with
    | expire i s =>
      have hne : i ≠ id := fun heq => hcall (by rw [heq]; rfl)
      simp [hne]
    | _ => rfl
  have hstride : Stride e (e.leave id 0 seq) := by
    refine .of_unwritten (by rw [hrelay]; rfl) ⟨[], by simp [Engine.leave, mapRelay, setRelay], rfl⟩ ?_
      fun x hx seq hxs => ⟨x, hx, rfl, hxs⟩
    rw [hrelay]
    exact fun p hp => ⟨p, (hmem.mp hp).1, rfl⟩
  refine ⟨h.stride.trans hstride, ?_, by rw [hrelay]; exact h.collected, h.apart, h.made,
    fun job hjob => h.jobs_of_done done [] (by simp) job (by rwa [List.append_nil]),
    fun t ht => h.timers t (List.mem_of_mem_filter ht), ?_, fun p hp => ?_, ?_, fun p hp => ?_,
    fun x hx hout seq' command hwant => ?_, fun x hx hout => ?_⟩
  · exact congrArg List.length (relays_setRelay h.alone _)
  · rw [hrelay]
    exact h.distinct.sublist (List.filter_sublist.map _)
  · rw [hrelay] at hp ⊢
    exact h.bounded p (hmem.mp hp).1
  · rw [hrelay]
    exact h.regular
  · rw [hrelay] at hp
    obtain ⟨hp, hne⟩ := hmem.mp hp
    obtain ⟨x, hx, -, hxe⟩ := h.housed p hp
    refine ⟨x, hx, fun heq => hne ?_, hxe⟩
    obtain ⟨i, d⟩ := x
    cases heq
    have hxs := Call.seq?_of_listing? hxe
    rw [← h.apart.eq (mem_of_call? hcall) hx, hseq] at hxs
    exact (Option.some.inj hxs).symm
  · have hid : x.1 ≠ id := fun hid => hout (by rw [hid])
    rw [hrelay]
    refine hmem.mpr ⟨h.listed x hx (by simp) seq' command hwant, fun heq => ?_⟩
    refine h.own hcall hx hid (Call.seq?_of_listing? (Call.listing?_of_want? hwant)) ?_
    rw [hseq, ← heq]
  · have hid : x.1 ≠ id := fun hid => hout (by rw [hid])
    have hother := attended_of_ne (h.attended x hx (by simp)) hown hid []
    rw [List.append_nil] at hother
    refine hother.mono (fun job hjob _ => hjob) fun t ht hx => .inl (htimers t ht fun heq => hid ?_)
    exact Option.some.inj (hx.symm.trans heq)

/-- A call that moves on may end. -/
theorem Tally.finish (h : Tally b (some id) todo e) (hcall : e.call? id = some c)
    (outcome : Except Failure Answer) : Tally b none todo (e.finish id outcome) := by
  obtain ⟨handedOut, ended, agenda, hfinish, htells⟩ := finish_of_call hcall outcome
  have hrole := (h.regular _ (mem_of_call? hcall)).role
  -- whom it concerns is told by one job at most
  obtain ⟨js, rfl, hjs⟩ : ∃ js, agenda = { e.agenda with ready := e.agenda.ready ++ js } ∧
      ∀ job ∈ js, job.Local := by
    rcases htells with rfl | ⟨job, rfl, hlocal⟩
    · exact ⟨[], by simp, by simp⟩
    · exact ⟨[job], rfl, by simpa using hlocal hrole⟩
  have hcases : ∀ x ∈ Table.erase id e.calls, x ∈ e.calls ∧ (some id : Option Nat) ≠ some x.1 := by
    intro x hx
    obtain ⟨hx, hid⟩ := Table.mem_erase_iff.mp hx
    exact ⟨hx, fun heq => hid (Option.some.inj heq).symm⟩
  have hjobs : ∀ job ∈ todo ++ (e.agenda.ready ++ js), job.Local :=
    Tally.jobs_of_done [] js h hjs
  rw [hfinish]
  refine ⟨h.stride.trans (.of_unwritten rfl ⟨[], by simp, rfl⟩ (fun p hp => ⟨p, hp, rfl⟩)
    fun x hx seq hxs => ⟨x, (hcases x hx).1, rfl, hxs⟩), h.alone, h.collected,
    h.apart.sublist (by rw [Table.erase_eq_filter]; exact List.filter_sublist),
    fun x hx => h.made x (hcases x hx).1, hjobs, h.timers, h.distinct, h.bounded,
    fun x hx => h.regular x (hcases x hx).1, fun p hp => ?_,
    fun x hx _ => h.listed x (hcases x hx).1 (hcases x hx).2, fun x hx _ => ?_⟩
  · obtain ⟨x, hx, hout, hxe⟩ := h.housed p hp
    exact ⟨x, Table.mem_erase_iff.mpr ⟨hx, fun hid => hout (by rw [hid])⟩, by simp, hxe⟩
  · obtain ⟨hx, hout⟩ := hcases x hx
    refine (h.attended x hx hout).mono (fun job hjob _ => ?_) fun t ht _ => .inl ht
    rw [← List.append_assoc]
    exact List.mem_append_left _ hjob

/-- **Or it writes another command**, and is listed under the next number. -/
theorem Tally.wrote (h : Tally b (some id) todo e) (hcall : e.call? id = some c) (a : Ask)
    {watch : Watch} {outcome : Option (Except Failure Json)} {js : List Job} {ts : List (Timer Job)}
    (hwatch : ∀ why, watch = .ending why → outcome ≠ none)
    (hjs : ∀ job ∈ js, job.call? = some id) (hts : ∀ timer ∈ ts, timer.job.call? = some id)
    (hattended : watch.Attended id (e.relay 0).nextSeq js ts outcome false) :
    Tally b none todo
      { e.wrote id c a watch outcome with
        agenda := { e.agenda with
          ready := e.agenda.ready ++ js
          timers := e.agenda.timers ++ ts } } := by
  obtain ⟨e', he'⟩ : ∃ e', e' = { e.wrote id c a watch outcome with
      agenda := { e.agenda with
        ready := e.agenda.ready ++ js
        timers := e.agenda.timers ++ ts } } := ⟨_, rfl⟩
  obtain ⟨c', hc'⟩ : ∃ c' : Call, c' =
      ⟨c.role, .asking 0 (e.relay 0).nextSeq a watch outcome (.answer a.after), false⟩ := ⟨_, rfl⟩
  have hmem := mem_of_call? hcall
  have hcalls : e'.calls = Table.update id (fun _ => c') e.calls := by rw [he', hc']; rfl
  have hlast : (e'.relay 0).link.last = (e.relay 0).link.last + 1 := by rw [he']; rfl
  have hpending : (e'.relay 0).link.pending = (e.relay 0).link.pending ++
      [⟨(e.relay 0).link.last + 1, a.command, outcome.isSome⟩] := by rw [he']; rfl
  have hready : e'.agenda.ready = e.agenda.ready ++ js := by rw [he']
  have htimers : e'.agenda.timers = e.agenda.timers ++ ts := by rw [he']
  have hentry : c'.listing? = some ⟨(e.relay 0).link.last + 1, a.command, false⟩ := by rw [hc']; rfl
  have hnumber : c'.seq? = some ((e.relay 0).link.last + 1) := Call.seq?_of_listing? hentry
  have hcases : ∀ x, x ∈ e'.calls ↔ x = (id, c') ∨ x.1 ≠ id ∧ x ∈ e.calls := by
    intro x
    rw [hcalls]
    exact mem_update_iff_of_call h.apart hcall
  have hin : ∀ {x : Nat × Call}, x.1 ≠ id → (some id : Option Nat) ≠ some x.1 :=
    fun hid heq => hid (Option.some.inj heq).symm
  have hstride : Stride e e' := by
    refine .of_asked hlast hpending rfl (by rw [he']; rfl) fun x hx => ?_
    rcases (hcases x).mp hx with rfl | ⟨-, hx⟩
    · exact .inl hnumber
    · exact .inr hx
  rw [← he']
  refine ⟨h.stride.trans hstride, by rw [he']; rfl, by rw [he']; exact h.collected, ?_,
    fun x hx => ?_, fun job hjob => ?_, fun t ht => ?_, ?_, fun p hp => ?_, fun x hx => ?_,
    fun p hp => ?_, fun x hx _ seq command hwant => ?_, fun x hx _ => ?_⟩
  · rw [hcalls]
    refine h.apart.update fun x hx hid seq hown hxs => ?_
    have hle := (h.regular x hx).seq_le hxs
    have hnew := Option.some.inj (hown.symm.trans hnumber)
    omega
  · have hmade : e'.lastCall = e.lastCall := by rw [he']; rfl
    rw [hmade]
    rcases (hcases x).mp hx with rfl | ⟨-, hx⟩
    · exact h.made (id, c) hmem
    · exact h.made x hx
  · rw [hready] at hjob
    refine Tally.jobs_of_done [] js h (fun job hjob => ?_) job hjob
    exact local_of_call? (hjs job hjob)
  · rw [htimers] at ht
    exact (List.mem_append.mp ht).elim (h.timers t) fun ht => local_of_call? (hts t ht)
  · rw [hpending, List.map_append]
    refine h.distinct.append (by simp) fun seq hseq hnew => ?_
    obtain ⟨p, hp, rfl⟩ := List.mem_map.mp hseq
    have hle := h.bounded p hp
    have heq : p.seq = (e.relay 0).link.last + 1 := by simpa using hnew
    omega
  · rw [hpending] at hp
    rw [hlast]
    rcases List.mem_append.mp hp with hp | hp
    · exact Nat.le_succ_of_le (h.bounded p hp)
    · exact Nat.le_of_eq (by rw [List.mem_singleton.mp hp])
  · rw [hlast]
    rcases (hcases x).mp hx with rfl | ⟨-, hx⟩
    · rw [hc']
      exact ⟨(h.regular _ hmem).role, rfl, Nat.le_refl _, ⟨_, rfl⟩, fun _ _ => rfl, hwatch⟩
    · exact (h.regular x hx).mono (Nat.le_succ _)
  · rw [hpending] at hp
    rcases List.mem_append.mp hp with hp | hp
    · obtain ⟨x, hx, hout, hxe⟩ := h.housed p hp
      exact ⟨x, (hcases x).mpr (.inr ⟨fun hid => hout (by rw [hid]), hx⟩), by simp, hxe⟩
    · rw [List.mem_singleton.mp hp]
      exact ⟨(id, c'), (hcases _).mpr (.inl rfl), by simp, hentry⟩
  · rw [hpending]
    rcases (hcases x).mp hx with rfl | ⟨hid, hx⟩
    · have hsame := Call.listing?_of_want? hwant
      rw [hentry] at hsame
      cases hsame
      obtain ⟨ask, watch', next, hstage, -⟩ := want?_eq_response.mp hwant
      rw [hc'] at hstage
      cases hstage
      exact List.mem_append_right _ (List.mem_singleton_self _)
    · exact List.mem_append_left _ (h.listed x hx (hin hid) seq command hwant)
  · rw [hready, htimers]
    have hjobs : ∀ {jobs : List Job} {job : Job}, job ∈ jobs ++ e.agenda.ready →
        job ∈ jobs ++ (e.agenda.ready ++ js) := fun hjob => by
      rw [← List.append_assoc]
      exact List.mem_append_left _ hjob
    rcases (hcases x).mp hx with rfl | ⟨hid, hx⟩
    · have hnew : c'.Attended id js ts := by rw [hc']; exact hattended
      exact hnew.mono (fun job hjob _ => List.mem_append_right _ (List.mem_append_right _ hjob))
        fun t ht _ => .inl (List.mem_append_right _ ht)
    · exact (h.attended x hx (hin hid)).mono (fun job hjob _ => hjobs hjob)
        fun t ht _ => .inl (List.mem_append_left _ ht)

/-- **A call that asks**: it is listed and waits, or ends because its command is
refused. Its number is never listed already. -/
theorem Tally.ask (h : Tally b (some id) todo e) (hcall : e.call? id = some c) (hfree : ¬ c.Waits)
    (a : Ask) : Tally b none todo (e.ask id 0 a (.answer a.after)) := by
  cases hrefusal : (e.relay 0).link.refusal? with
  | some cause =>
    have htaken := h.discreet (Relay.discreet_takeSeq (e.relay 0))
    have hcall' := call?_takeIn h.apart hcall hfree (e.relay 0).takeSeq
    unfold Engine.ask
    rw [operate_eq]
    simp only [Relay.ask_of_refused h.bounded hrefusal, fail]
    exact htaken.finish hcall' _
  | none =>
    have hask := Relay.ask_of_taken h.bounded hrefusal a.command a.arguments
    have hok : (e.operate 0 (Relay.ask a.command a.arguments)).2 = .ok (e.relay 0).nextSeq := by
      rw [operate_eq, hask]
    obtain ⟨watch, outcome, js, ts, heq, -, hwatch, hjs, hts, hattended⟩ :=
      waitFor_eq h.relays h.collected h.bounded hcall a
    rw [ask_of_written hok, operate_eq, hask, heq]
    exact h.wrote hcall a hwatch hjs hts hattended

/-- A call is made. -/
theorem Tally.spawn (h : Tally b out todo e) {role : Role} {work : Work} (hrole : role.Local)
    (hwork : work.Local) : Tally b out todo (e.spawn role work) := by
  have hcalls := calls_spawn h.made role work
  have hcases : ∀ x ∈ (e.spawn role work).calls,
      x = (e.lastCall + 1, ⟨role, .created work, false⟩) ∨ x ∈ e.calls := fun _ => Table.mem_put
  have hready : (e.spawn role work).agenda.ready =
      e.agenda.ready ++ [.resume (e.lastCall + 1)] := rfl
  have hjobs : ∀ {job : Job}, job ∈ todo ++ e.agenda.ready →
      job ∈ todo ++ (e.agenda.ready ++ [.resume (e.lastCall + 1)]) := fun hjob => by
    rw [← List.append_assoc]
    exact List.mem_append_left _ hjob
  refine ⟨h.stride.trans (.of_unwritten rfl ⟨[], by simp [Engine.spawn, post], rfl⟩
    (fun p hp => ⟨p, hp, rfl⟩) fun x hx seq hxs => ?_), h.alone, h.collected, ?_, fun x hx => ?_,
    fun job hjob => ?_, h.timers, h.distinct, h.bounded, fun x hx => ?_, fun p hp => ?_,
    fun x hx hout seq command hwant => ?_, fun x hx hout => ?_⟩
  · rcases hcases x hx with rfl | hx
    · cases hxs
    · exact ⟨x, hx, rfl, hxs⟩
  · rw [hcalls]
    exact h.apart.append (next_not_mem_keys h.made) rfl
  · rcases hcases x hx with rfl | hx
    · exact Nat.le_refl _
    · exact Nat.le_succ_of_le (h.made x hx)
  · exact Tally.jobs_of_done [] [.resume (e.lastCall + 1)] h (by simp [Job.Local]) job hjob
  · rcases hcases x hx with rfl | hx
    · exact ⟨hrole, hwork⟩
    · exact h.regular x hx
  · obtain ⟨x, hx, hxe⟩ := h.housed p hp
    exact ⟨x, hcalls ▸ List.mem_append_left _ hx, hxe⟩
  · rcases hcases x hx with rfl | hx
    · cases hwant
    · exact h.listed x hx hout seq command hwant
  · rw [hready]
    rcases hcases x hx with rfl | hx
    · exact List.mem_append_right _ (List.mem_append_right _ (List.mem_singleton_self _))
    · exact (h.attended x hx hout).mono (fun job hjob _ => hjobs hjob) fun t ht _ => .inl ht

/-- A log line changes nothing of the list. -/
theorem Tally.log (h : Tally b out todo e) (level : LogLevel) (text : String) :
    Tally b out todo (e.log 0 level text) :=
  ⟨h.stride.trans (.of_unwritten rfl ⟨[(0, .logged level text)], rfl, rfl⟩
    (fun p hp => ⟨p, hp, rfl⟩) fun x hx _ hxs => ⟨x, hx, rfl, hxs⟩), h.alone, h.collected, h.apart,
    h.made, h.jobs, h.timers, h.distinct, h.bounded, h.regular, h.housed, h.listed, h.attended⟩

/-- Jobs may be taken from the line, and timers come due, if calls stay
attended. -/
theorem Tally.timed (h : Tally b out todo e) {todo' : List Job} (agenda : Agenda Job)
    (hjobs : ∀ job ∈ todo' ++ agenda.ready, job.Local) (htimers : ∀ t ∈ agenda.timers, t.job.Local)
    (hattended : ∀ x ∈ e.calls, out ≠ some x.1 →
      x.2.Attended x.1 (todo' ++ agenda.ready) agenda.timers) :
    Tally b out todo' { e with agenda } :=
  ⟨h.stride.trans (.of_same ⟨rfl, rfl⟩ rfl rfl), h.alone, h.collected, h.apart, h.made, hjobs,
    htimers, h.distinct, h.bounded, h.regular, h.housed, h.listed, hattended⟩

/-- A job may be done without anything coming of it, if nobody waits for it. -/
theorem Tally.idle {job : Job} (h : Tally b none (job :: todo) e)
    (hown : ∀ x ∈ e.calls, job.call? = some x.1 →
      x.2.Attended x.1 (todo ++ e.agenda.ready) e.agenda.timers) : Tally b none todo e := by
  refine h.timed e.agenda (fun j hj => h.jobs j (List.mem_cons_of_mem _ hj)) h.timers
    fun x hx hout => ?_
  by_cases hcall : job.call? = some x.1
  · exact hown x hx hcall
  · refine (h.attended x hx hout).mono (fun j hj hjx => ?_) fun t ht _ => .inl ht
    rcases List.mem_cons.mp hj with rfl | hj
    · exact absurd hjx hcall
    · exact hj

end Engine

end LanguageRelay
