import LanguageRelay.Proofs.Editing.Accounts
import LanguageRelay.Proofs.Checks.Settlement
/-!
# The closing of the connection

The closing of the connection ends all that is under way (`Closes`): every call
that waits for a response is told, and so is every call on the list of those
that wait for diagnostics; every timer of a document is taken back, and
nothing is pending or awaited any more. From then on nothing is written or
published, and no call comes to wait again (`Shut`).

Both hold at any moment, whatever is under way (`closing_absorbs`). **Only a
call that a failing message took off the list is not told**: it waited for
nothing before, and does so after (`stranded_past_closing`).
-/

namespace LanguageRelay

/-- Nothing is written or published by this, and nothing closed. -/
def Effect.Mute : Effect → Prop
  | .sent _ | .published .. | .closed _ => False
  | _ => True

/-- A call that waits gets the outcome of a closed connection. -/
def Call.reject (cause : Closure) (c : Call) : Call :=
  match c.stage with
  | .asking i seq ask watch none next =>
    { c with stage := .asking i seq ask watch (some (.error (.closed cause))) next }
  | .checking i none => { c with stage := .checking i (some (.error (.closed cause))) }
  | _ => c

/-- The closing of the connection is told to the call: it waits for a response,
or is listed as waiting for diagnostics. -/
def Relay.tells (r : Relay) (id : Nat) (c : Call) : Bool :=
  match c.stage with
  | .asking _ _ _ _ none _ => true
  | .checking _ none => (r.checks.flatMap fun e => e.2.waiters).contains ⟨id, false⟩
  | _ => false

namespace Engine

/-- Messages that do not make the relay fail. -/
def Terms.unfailing : Terms :=
  ⟨fun _ _ => True, fun _ _ => True, fun r message => (r.receive message).2 = none⟩

/-- The closing of the connection. -/
def Moment.close (cause : Closure) (m : Moment) : Moment := (Deed.plain (.close cause)).perform m

/-- **What the closing of the connection does.** -/
structure Closes (cause : Closure) (e e' : Engine) : Prop where
  /-- Each command that awaits its response is that of one call, and each call
  that is listed waits. -/
  asked : ∀ p ∈ (e.relay 0).link.pending, p.settled = false →
    ∃! id, Wants e.calls id (.response p.seq p.command)
  listed : ∀ uri id, (e.relay 0).Listed uri id → Wants e.calls id .diagnostics
  /-- They are told, and no others. -/
  calls : e'.calls = e.calls.map fun x =>
    (x.1, if (e.relay 0).tells x.1 x.2 then x.2.reject cause else x.2)
  /-- Whoever was told has a job in line. -/
  woken : ∀ x ∈ e.calls, (e.relay 0).tells x.1 x.2 = true →
    ∃ job ∈ e'.agenda.ready, (x.2.reject cause).alarm? x.1 = some job
  /-- Whoever waits on is not listed. -/
  stranded : ∀ id w, Wants e'.calls id w ↔
    Wants e.calls id w ∧ w = .diagnostics ∧ ∀ uri, ¬ (e.relay 0).Listed uri id
  relay : e'.relay 0 = { e.relay 0 with
    link := { (e.relay 0).link with closed := some cause, pending := [] }
    checks := ((e.relay 0).mapChecks CheckState.severed).checks
    abandoned := []
    scheduled := [] }
  /-- Every timer of a document is taken back. -/
  timers : e'.agenda.timers = e.agenda.timers.filter fun timer =>
    !(e.relay 0).scheduled.any fun s => Job.isTimer s.1 s.2 timer.job
  /-- The closing is made known once. -/
  record : e'.record = e.record ++ ((Relay.rejectionNotice cause (e.relay 0).link.pending
    ++ [Effect.closed cause]).map fun effect => (0, effect))
  same : e' = { e with
    agenda := e'.agenda, calls := e'.calls, relays := e'.relays, record := e'.record }

/-- **All is over since the connection closed**, which left the first engine. -/
structure Shut (cause : Closure) (e₀ e : Engine) : Prop where
  closed : (e.relay 0).link.closed = some cause
  pending : (e.relay 0).link.pending = []
  unlisted : ∀ uri id, ¬ (e.relay 0).Listed uri id
  /-- Nothing is written, published or closed any more. -/
  mute : ∃ fx, e.record = e₀.record ++ fx ∧ ∀ entry ∈ fx, entry.2.Mute
  /-- No call comes to wait. -/
  waiting : ∀ id w, Wants e.calls id w → w = .diagnostics ∧ Wants e₀.calls id w

/-- Whatever is asked of the relay now is refused. -/
structure Refuses (cause : Closure) (m : Moment) : Prop where
  notify : ∀ name arguments,
    ((m.engine.relay 0).notify name arguments).2 = .error (.closed cause)
  ask : ∀ name arguments, ((m.engine.relay 0).ask name arguments).2 = .error (.closed cause)
  /-- A call that would write a command fails as soon as it runs. -/
  query : ∀ id c q a, m.engine.call? id = some c → c.stage = .created (.query 0 q) →
    c.cancelled = false → q.first (m.engine.relay 0) = .ok a →
    m.engine.resume id =
      (m.engine.takeIn (m.engine.relay 0).takeSeq).finish id (.error (.closed cause))
  check : ∀ uri waiter, ((m.engine.relay 0).requestCheck uri waiter).2 ≠ .ok true
  /-- No part of a check is awaited. -/
  awaited : ∀ uri c, (m.engine.relay 0).check? uri = some c → c.outstanding = []
  /-- A second closing changes nothing. -/
  again : ∀ later, m.close later = m

variable {t : Terms} {whole : Prop} {cause : Closure} {e₀ e e' : Engine} {m : Moment} {r r' : Relay}
variable {id : Nat} {c : Call}

/-! ## What the closing does -/

/-- Effects that are no timers' leave those alone. -/
theorem foldl_heed_of_untimed {fx : List Effect} (delay : Int) (a : Agenda Job)
    (h : ∀ effect ∈ fx, ∀ uri timer, effect ≠ .armed uri timer ∧ effect ≠ .disarmed uri timer) :
    fx.foldl (Agenda.heed delay) a = a := by
  induction fx with
  | nil => rfl
  | cons effect rest ih =>
    have hone : Agenda.heed delay a effect = a := by
      cases effect with
      | armed uri timer => exact absurd rfl (h _ List.mem_cons_self uri timer).1
      | disarmed uri timer => exact absurd rfl (h _ List.mem_cons_self uri timer).2
      | _ => rfl
    rw [List.foldl_cons, hone]
    exact ih fun effect heffect => h effect (List.mem_cons_of_mem _ heffect)

/-- Timers that are taken back are set no more. -/
theorem foldl_heed_disarmed (delay : Int) (l : List (String × Nat)) (a : Agenda Job) :
    (l.map fun s => Effect.disarmed s.1 s.2).foldl (Agenda.heed delay) a =
      { a with timers := a.timers.filter fun timer =>
          !l.any fun s => Job.isTimer s.1 s.2 timer.job } := by
  induction l generalizing a with
  | nil => simp
  | cons s rest ih =>
    rw [List.map_cons, List.foldl_cons, ih]
    simp [Agenda.heed, Agenda.dropTimers, List.filter_filter, Bool.and_comm]

theorem foldl_heed_closing (delay : Int) (a : Agenda Job) :
    (r.closing cause).foldl (Agenda.heed delay) a =
      { a with timers := a.timers.filter fun timer =>
          !r.scheduled.any fun s => Job.isTimer s.1 s.2 timer.job } := by
  have hnotice : ∀ effect ∈ Relay.rejectionNotice cause r.link.pending, ∀ uri timer,
      effect ≠ .armed uri timer ∧ effect ≠ .disarmed uri timer := by
    unfold Relay.rejectionNotice
    split <;> simp
  have hrejections : ∀ effect ∈ Relay.rejections cause r.link.pending, ∀ uri timer,
      effect ≠ .armed uri timer ∧ effect ≠ .disarmed uri timer := by
    intro effect heffect
    obtain ⟨p, -, rfl⟩ := List.mem_map.mp heffect
    simp
  have hreleases : ∀ ws, ∀ effect ∈ Relay.releases (.error (.closed cause)) ws, ∀ uri timer,
      effect ≠ .armed uri timer ∧ effect ≠ .disarmed uri timer := by
    intro ws effect heffect
    obtain ⟨w, -, rfl⟩ := List.mem_map.mp heffect
    simp
  simp only [Relay.closing, List.foldl_append]
  rw [foldl_heed_of_untimed _ _ hnotice, foldl_heed_of_untimed _ _ hrejections,
    foldl_heed_disarmed, foldl_heed_of_untimed _ _ (hreleases _)]
  rfl

/-- Of what the closing does, the notice and the closing itself are recorded. -/
theorem noted_closing : (r.closing cause).filter Effect.noted =
    Relay.rejectionNotice cause r.link.pending ++ [.closed cause] := by
  have hnotice : (Relay.rejectionNotice cause r.link.pending).filter Effect.noted =
      Relay.rejectionNotice cause r.link.pending := by
    unfold Relay.rejectionNotice
    split <;> rfl
  simp [Relay.closing, hnotice, Relay.rejections, Relay.releases, Effect.noted, List.filter_map,
    Function.comp_def]

/-- **Each call takes the closing as it waits.** -/
theorem foldl_heed_tells (h : e.Orderly) (hacc : Accounted whole (e.relay 0) (Wants e.calls))
    (hcall : (id, c) ∈ e.calls) : ((e.relay 0).closing cause).foldl (Call.heed id) c =
      if (e.relay 0).tells id c then c.reject cause else c := by
  have hsingle := h.sound.single
  rcases foldl_heed_cases ((e.relay 0).closing cause) id c with ⟨hsame, hasking, hchecking⟩ |
    ⟨seq, ask, watch, next, o, hstage, ho, htold⟩ | ⟨i, o, hstage, ho, htold⟩
  · rw [hsame, if_neg]
    unfold Relay.tells
    split
    · rename_i i seq ask watch next hstage
      have hstaged := (h.regular _ hcall).stage
      rw [hstage] at hstaged
      obtain rfl : i = 0 := hstaged.1
      -- the command is listed, so it would have been rejected
      have hpending := hacc.asked id seq ask.command
        ⟨c, hcall, want?_eq_response.mpr ⟨ask, watch, next, hstage, rfl⟩⟩
      exact absurd (Relay.answered_mem_closing.mpr ⟨⟨_, hpending, rfl, rfl⟩, rfl⟩)
        (hasking seq ask watch next hstage _)
    · rename_i i hstage
      rw [List.contains_iff_mem, ← Relay.listed_iff_mem hsingle]
      intro hlisted
      exact absurd ((Relay.released_mem_closing hsingle).mpr ⟨hlisted, rfl⟩) (hchecking i hstage _)
    · simp
  · obtain ⟨-, rfl⟩ := Relay.answered_mem_closing.mp ho
    rw [htold, if_pos (by simp [Relay.tells, hstage])]
    simp [Call.reject, hstage]
  · obtain ⟨hlisted, rfl⟩ := (Relay.released_mem_closing hsingle).mp ho
    rw [htold, if_pos]
    · simp [Call.reject, hstage]
    · simpa [Relay.tells, hstage] using (Relay.listed_iff_mem hsingle id).mp hlisted

/-- A call that is told waits no more, and there is a job that runs it on. -/
theorem waits_of_tells (cause : Closure) (h : c.Regular (e.relay 0).link.last)
    (htells : (e.relay 0).tells id c = true) :
    c.Waits ∧ ¬ (c.reject cause).Waits ∧ ∃ job, (c.reject cause).alarm? id = some job := by
  obtain ⟨role, stage, cancelled⟩ := c
  have hstaged := h.stage
  cases stage with
  | asking i seq ask watch outcome next =>
    cases outcome with
    | some o => simp [Relay.tells] at htells
    | none => cases watch <;> simp [Call.Waits, Call.reject, Call.alarm?, Call.wakeup?]
  | checking i outcome =>
    cases outcome with
    | some o => simp [Relay.tells] at htells
    | none => simp [Call.Waits, Call.reject, Call.alarm?]
  | _ => simp [Relay.tells] at htells

/-- **What the closing of an open connection does.** -/
theorem closes_takeIn (h : e.Orderly) (hacc : Accounted whole (e.relay 0) (Wants e.calls))
    (hup : (e.relay 0).link.closed = none) (cause : Closure) :
    Closes cause e (e.takeIn ((e.relay 0).disconnect cause)) := by
  have houtbox := Relay.outbox_disconnect hup h.collected cause
  have hheeded := heeded_takeIn h.apart ((e.relay 0).disconnect cause)
  have hrelay := relay_takeIn h ((e.relay 0).disconnect cause)
  rw [houtbox] at hheeded
  obtain ⟨js, hagenda, -, hwoken⟩ := hheeded.agenda
  have hcalls : (e.takeIn ((e.relay 0).disconnect cause)).calls =
      e.calls.map fun x => (x.1, ((e.relay 0).closing cause).foldl (Call.heed x.1) x.2) :=
    hheeded.calls
  refine ⟨fun p hp hopen => ?_, hacc.listed, ?_, fun x hx htells => ?_, fun id w => ?_, ?_, ?_, ?_, ?_⟩
  · obtain ⟨id, hid⟩ := hacc.pending p hp hopen
    exact ⟨id, hid, fun i hi => eq_of_wants_response h.apart hi hid⟩
  · rw [hcalls]
    refine List.map_congr_left fun x hx => ?_
    rw [foldl_heed_tells h hacc hx]
  · obtain ⟨hwaits, hdone, job, hjob⟩ := waits_of_tells cause (h.regular x hx) htells
    have htold : ((e.relay 0).closing cause).foldl (Call.heed x.1) x.2 = x.2.reject cause := by
      rw [foldl_heed_tells h hacc hx, if_pos htells]
    refine ⟨job, ?_, hjob⟩
    rw [hagenda]
    exact List.mem_append_right _ (hwoken x hx hwaits (by rwa [htold]) job (by rwa [htold]))
  · rw [hcalls, wants_heed]
    refine and_congr_right fun hw => ?_
    cases w with
    | response seq command =>
      -- a response that is waited for is pending, so the closing gives one
      have hmet : Want.Met ((e.relay 0).closing cause) id (.response seq command) :=
        ⟨_, Relay.answered_mem_closing.mpr ⟨⟨_, hacc.asked id seq command hw, rfl, rfl⟩, rfl⟩⟩
      simp [hmet]
    | diagnostics =>
      simp only [Want.Met, Relay.released_mem_closing h.sound.single, true_and]
      exact ⟨fun hunmet uri hlisted => hunmet ⟨_, ⟨uri, hlisted⟩, rfl⟩,
        fun hnone ⟨_, ⟨uri, hlisted⟩, _⟩ => hnone uri hlisted⟩
  · rw [hrelay, Relay.disconnect_of_open hup]
    have hcollected := h.collected
    generalize e.relay 0 = r at hcollected ⊢
    obtain ⟨setup, link, sessions, checks, uriByFile, abandoned, scheduled, lastTimer, outbox⟩ := r
    simp only at hcollected
    rw [hcollected]
  · rw [hagenda, foldl_heed_closing]
    rfl
  · rw [hheeded.record, noted_closing]
    rfl
  · rw [hheeded.same]
    rfl

/-! ## From then on -/

/-- Over a closed connection nothing that abides by the rules is written or
published. -/
theorem mute_of_abides {P : Service.Command → Prop} (h : Relay.Abides P whole r r')
    (hcollected : r.outbox = []) (hclosed : r.link.closed = some cause) :
    ∀ effect ∈ r'.outbox, effect.Mute := by
  obtain ⟨fx, hfx, hallowed, -⟩ := h.added
  rw [hcollected, List.nil_append] at hfx
  subst hfx
  intro effect heffect
  have hrule := hallowed effect heffect
  rw [hclosed] at hrule
  cases effect with
  | sent command => exact absurd hrule.1 (by simp)
  | published =>
    have hup : some cause = none := hrule
    cases hup
  | closed => exact hrule
  | _ => trivial

/-- What a mute relay did is taken in. -/
theorem shut_takeIn (h : e.Orderly) (hshut : Shut cause e₀ e) (hclosed : r.link.closed = some cause)
    (hpending : r.link.pending = []) (hunlisted : ∀ uri id, ¬ r.Listed uri id)
    (hmute : ∀ effect ∈ r.outbox, effect.Mute) : Shut cause e₀ (e.takeIn r) := by
  have hheeded := heeded_takeIn h.apart r
  have hrelay := relay_takeIn h r
  have hcalls : (e.takeIn r).calls = _ := hheeded.calls
  refine ⟨by rw [hrelay]; exact hclosed, by rw [hrelay]; exact hpending, fun uri id => ?_, ?_,
    fun id w hw => ?_⟩
  · rw [hrelay]
    exact hunlisted uri id
  · obtain ⟨fx, hrecord, hfx⟩ := hshut.mute
    have hadded : (e.takeIn r).record =
        e.record ++ (r.outbox.filter Effect.noted).map fun effect => (0, effect) := hheeded.record
    refine ⟨fx ++ (r.outbox.filter Effect.noted).map fun effect => (0, effect), ?_,
      fun entry hentry => ?_⟩
    · rw [hadded, hrecord, List.append_assoc]
    · rcases List.mem_append.mp hentry with hentry | hentry
      · exact hfx entry hentry
      · obtain ⟨effect, heffect, rfl⟩ := List.mem_map.mp hentry
        exact hmute effect (List.mem_filter.mp heffect).1
  · rw [hcalls, wants_heed] at hw
    exact hshut.waiting id w hw.1

/-- What abides by the rules keeps a connection shut. -/
theorem shut_abides {P : Service.Command → Prop} (h : e.Orderly) (hshut : Shut cause e₀ e)
    (habides : Relay.Abides P whole (e.relay 0) r) : Shut cause e₀ (e.takeIn r) :=
  shut_takeIn h hshut (habides.closed.trans hshut.closed) (habides.pending.trans hshut.pending)
    (fun uri id hid => hshut.unlisted uri id (habides.listed uri id hid))
    (mute_of_abides habides h.collected hshut.closed)

/-- What matters is what waits, and what is recorded. -/
theorem Shut.change (hshut : Shut cause e₀ e)
    (hclosed : (e'.relay 0).link.closed = (e.relay 0).link.closed)
    (hpending : (e'.relay 0).link.pending = [])
    (hlisted : ∀ uri id, (e'.relay 0).Listed uri id → (e.relay 0).Listed uri id)
    (hrecord : ∃ fx, e'.record = e.record ++ fx ∧ ∀ entry ∈ fx, entry.2.Mute)
    (hwaiting : ∀ id w, Wants e'.calls id w → Wants e.calls id w) : Shut cause e₀ e' := by
  obtain ⟨fx, hfx, hmute⟩ := hshut.mute
  obtain ⟨fy, hfy, hmute'⟩ := hrecord
  refine ⟨hclosed.trans hshut.closed, hpending, fun uri id hid => hshut.unlisted uri id
    (hlisted uri id hid), ⟨fx ++ fy, by rw [hfy, hfx, List.append_assoc], fun entry hentry => ?_⟩,
    fun id w hw => hshut.waiting id w (hwaiting id w hw)⟩
  exact (List.mem_append.mp hentry).elim (hmute entry) (hmute' entry)

/-- **No shift opens a closed connection**, or makes a call wait. -/
theorem shut_shift (hshift : Shift t e e') (h : e.Orderly) (hshut : Shut cause e₀ e) :
    Shut cause e₀ e' := by
  have hquiet : ∃ fx, e.record = e.record ++ fx ∧ ∀ entry ∈ fx, Effect.Mute entry.2 :=
    ⟨[], by simp, by simp⟩
  -- the two shifts that make a call wait need an open connection
  have hover : (e.relay 0).link.closed ≠ none := by simp [hshut.closed]
  cases hshift with
  | served hserves => exact shut_abides h hshut hserves.abides
  | made role work =>
    exact hshut.change rfl hshut.pending (fun _ _ => id) hquiet
      fun i w => (wants_spawn h role work i w).mp
  | asked _ _ _ hup => exact absurd hup hover
  | waited _ _ _ hup => exact absurd hup hover
  | @withdrew id c seq ask watch next hcall hstage watch' cancelled =>
    refine hshut.change (by rw [relay_mapRelay_calls h]; rfl)
      (by rw [relay_mapRelay_calls h]; simp [Relay.withdraw, hshut.pending])
      (fun uri id hid => by rwa [relay_mapRelay_calls h] at hid) hquiet fun id w hw => ?_
    exact ((wants_update_of_done h hcall (by simp [Call.Waits]) id w).mp hw).2
  | @dropped id c hcall hstage =>
    refine hshut.change (by rw [relay_mapRelay_calls h]; rfl)
      (by rw [relay_mapRelay_calls h]; exact hshut.pending) (fun uri i hid => ?_) hquiet
      fun i w hw => ?_
    · rw [relay_mapRelay_calls h] at hid
      exact ((Relay.listed_withdrawWaiter id uri i).mp hid).1
    · exact ((wants_update_of_done h hcall (by simp [Call.Waits]) i w).mp hw).2
  | @left id c seq ask watch o next hcall hstage =>
    exact hshut.change (by rw [relay_mapRelay h]; rfl)
      (by rw [relay_mapRelay h]; simp [Relay.unlist, hshut.pending])
      (fun uri id hid => by rwa [relay_mapRelay h] at hid) hquiet fun _ _ hw => hw
  | @altered id c c' hcall halike =>
    refine hshut.change rfl hshut.pending (fun _ _ hid => hid) hquiet fun i w hw => ?_
    rw [wants_update h.apart.single (mem_of_call? hcall), halike.want?] at hw
    rcases hw with ⟨rfl, hw⟩ | ⟨-, hw⟩
    · exact ⟨c, mem_of_call? hcall, hw⟩
    · exact hw
  | @ended id c outcome hcall hfree =>
    obtain ⟨handedOut, told, agenda, hfinish, -⟩ := finish_of_call hcall outcome
    rw [hfinish]
    exact hshut.change rfl hshut.pending (fun _ _ hid => hid) hquiet
      fun i w hw => ((wants_erase id i w).mp hw).2
  | logged level text =>
    exact hshut.change rfl hshut.pending (fun _ _ => id) ⟨[(0, .logged level text)], rfl, by
      simp [Effect.Mute]⟩ fun _ _ hw => hw
  | timed => exact hshut.change rfl hshut.pending (fun _ _ => id) hquiet fun _ _ hw => hw

/-- **No deed does.** -/
theorem shut_perform {d : Deed} (h : m.Orderly) (hmeets : Deed.Meets t m d)
    (hshut : Shut cause e₀ m.engine) : Shut cause e₀ (d.perform m).engine := by
  rcases perform_cases h hmeets with ⟨r, hdoes, heq⟩ | hshifts
  · rw [heq]
    rcases does_cases hdoes h.engine.sound with habides | ⟨-, response, -, -, rfl⟩ |
      ⟨again, -, hup, rfl⟩
    · exact shut_abides h.engine hshut habides
    · rcases Relay.resolve_cases response (m.engine.relay 0) with heq | ⟨p, hp, -⟩
      · rw [heq]
        have hlogged : Relay.Abides (fun _ => True) True (m.engine.relay 0) _ :=
          Relay.abides_log .warning (Relay.strayResponse response) _
        exact shut_abides h.engine hshut hlogged
      · rw [hshut.pending] at hp
        cases hp
    · rw [hshut.closed] at hup
      cases hup
  · exact (hshifts.keep (P := fun e => e.Orderly ∧ Shut cause e₀ e)
      (fun _ _ hshift h => ⟨orderly_shift hshift h.1, shut_shift hshift h.1 h.2⟩)
      ⟨h.engine, hshut⟩).2

/-- A closed connection refuses whatever is asked. -/
theorem refuses_of_shut (h : m.Orderly) (hshut : Shut cause e₀ m.engine) : Refuses cause m where
  notify name arguments := by rw [Relay.notify_of_refused (Link.refusal?_of_closed hshut.closed)]
  ask name arguments := by
    rw [Relay.ask_of_refused h.engine.link.numbered (Link.refusal?_of_closed hshut.closed)]
  query id c q a hcall hstage hcancelled hfirst := by
    unfold resume
    simp only [hcall, hstage, hcancelled, Bool.false_eq_true, if_false, begin, query, hfirst]
    unfold Engine.ask
    rw [operate_eq]
    simp only [Relay.ask_of_refused h.engine.link.numbered (Link.refusal?_of_closed hshut.closed),
      fail]
  check uri waiter hwaits := by
    have hup := Relay.up_of_requestCheck uri waiter h.engine.sound hwaits
    rw [hshut.closed] at hup
    cases hup
  awaited uri c hcheck := h.engine.sound.silent (by simp [hshut.closed]) uri c hcheck
  again later := by
    have hsame := Relay.disconnect_of_closed (r := m.engine.relay 0) (by simp [hshut.closed]) later
    have hkept : m.engine.takeIn (m.engine.relay 0) = m.engine := by
      have hrelays : m.engine.relays.set 0 (m.engine.relay 0) = m.engine.relays :=
        (relays_setRelay h.engine.alone _).trans h.engine.relays.symm
      rw [takeIn_of_collected h.engine.collected, setRelay, hrelays]
    change { m with engine := m.engine.takeIn ((m.engine.relay 0).disconnect later) } = m
    rw [hsame, hkept]

/-- What is shut stays so, and refuses whatever is asked. -/
theorem shut_work (h : m.Orderly) (hshut : Shut cause e₀ m.engine) (more : List Deed) :
    Shut cause e₀ (work more m).engine ∧ Refuses cause (work more m) := by
  have hkept := work_induction (P := fun m => m.Orderly ∧ Shut cause e₀ m.engine) ⟨h, hshut⟩
    (meet_any more m) fun _ _ h hmeets => ⟨orderly_perform h.1 hmeets, shut_perform h.1 hmeets h.2⟩
  exact ⟨hkept.2, refuses_of_shut hkept.1 hkept.2⟩

/-- The closing shuts the connection. -/
theorem Closes.shut (h : Closes cause e e') : Shut cause e' e' where
  closed := by rw [h.relay]
  pending := by rw [h.relay]
  unlisted uri id := by
    rw [h.relay]
    rintro ⟨c, hcheck, hw⟩
    obtain ⟨d, -, rfl⟩ := Option.map_eq_some_iff.mp
      ((Relay.check?_mapChecks CheckState.severed (e.relay 0) uri).symm.trans hcheck)
    simp [CheckState.severed] at hw
  mute := ⟨[], by simp, by simp⟩
  waiting id w hw := ⟨((h.stranded id w).mp hw).2.1, hw⟩

/-- **The closing of the connection**, at any moment when it is open: it ends all
that is under way, leaves no call waiting that was not lost to a failing
message, and lets nothing happen from then on. -/
theorem closing_absorbs (setup : Setup) (deeds : List Deed) (cause : Closure)
    (hup : ((work deeds (.new setup)).engine.relay 0).link.closed = none) :
    Closes cause (work deeds (.new setup)).engine ((work deeds (.new setup)).close cause).engine ∧
      ((work deeds (.new setup)).close cause).todo = (work deeds (.new setup)).todo ∧
      (Meet .unfailing deeds (.new setup) →
        ∀ id w, ¬ Wants ((work deeds (.new setup)).close cause).engine.calls id w) ∧
      ∀ more,
        Shut cause ((work deeds (.new setup)).close cause).engine
            (work more ((work deeds (.new setup)).close cause)).engine ∧
          Refuses cause (work more ((work deeds (.new setup)).close cause)) := by
  have horderly := orderly_work setup (meet_any deeds _)
  have hcloses : Closes cause (work deeds (.new setup)).engine
      ((work deeds (.new setup)).close cause).engine :=
    closes_takeIn horderly.engine (accounted_work False setup (meet_any deeds _) False.elim) hup
      cause
  refine ⟨hcloses, rfl, fun hmeet id w hw => ?_, ?_⟩
  · -- whoever waits on was not listed, but without failures all are
    obtain ⟨hw, rfl, hnone⟩ := (hcloses.stranded id w).mp hw
    obtain ⟨uri, hlisted⟩ :=
      (accounted_work True setup hmeet fun _ _ _ hhears => hhears).whole trivial id hw
    exact hnone uri hlisted
  · exact shut_work (orderly_perform (t := .any) horderly trivial) hcloses.shut

/-- A call waits for the diagnostics of a document, another for a response, and
a check is scheduled. -/
def underWay : List Deed :=
  [.opened "file:///a.ts" "typescript" 1 "x", .check "d" "file:///a.ts",
    .plain (.request "q" "quickinfo" .null none), .scheduled "file:///a.ts", .plain .turn,
    .plain .job, .plain .job]

/-- Both calls wait, and neither does after the closing. -/
theorem closing_absorbs_underWay :
    ((work underWay (.new Relay.syntaxOnly)).engine.relay 0).link.closed = none ∧
      Wants (work underWay (.new Relay.syntaxOnly)).engine.calls 1 .diagnostics ∧
      Wants (work underWay (.new Relay.syntaxOnly)).engine.calls 2 (.response 3 "quickinfo") ∧
      ∀ id w, ¬ Wants ((work underWay (.new Relay.syntaxOnly)).close .unexplained).engine.calls id w :=
  by
  have hup : ((work underWay (.new Relay.syntaxOnly)).engine.relay 0).link.closed = none := by
    with_unfolding_all rfl
  have hcalls : (work underWay (.new Relay.syntaxOnly)).engine.calls =
      [(1, ⟨.client "d", .checking 0 none, false⟩),
        (2, ⟨.client "q", .asking 0 3 ⟨"quickinfo", .null, none, .raw⟩ .unbounded none
          (.answer .raw), false⟩)] := by
    with_unfolding_all rfl
  rw [hcalls]
  refine ⟨hup, ⟨_, List.mem_cons_self, rfl⟩,
    ⟨_, List.mem_cons_of_mem _ List.mem_cons_self, rfl⟩, ?_⟩
  exact (closing_absorbs Relay.syntaxOnly underWay .unexplained hup).2.2.1
    ⟨trivial, trivial, trivial, trivial, trivial, trivial, trivial, trivial⟩

/-- A call waits for diagnostics, and a part of the check comes in that makes
the relay fail. -/
def strandedDeeds : List Deed :=
  [.opened "file:///a.ts" "typescript" 1 "x", .check "d" "file:///a.ts", .plain .turn, .plain .job,
    .plain (.receive (.obj (Relay.syntaxPart [.int 5]).toFields))]

/-- **The call is not told of the closing**: it waits before and after. -/
theorem stranded_past_closing :
    ((work strandedDeeds (.new Relay.syntaxOnly)).engine.relay 0).link.closed = none ∧
      Wants (work strandedDeeds (.new Relay.syntaxOnly)).engine.calls 1 .diagnostics ∧
      ∀ cause, Wants ((work strandedDeeds (.new Relay.syntaxOnly)).close cause).engine.calls 1
        .diagnostics := by
  have hcalls : (work strandedDeeds (.new Relay.syntaxOnly)).engine.calls =
      [(1, ⟨.client "d", .checking 0 none, false⟩)] := by
    with_unfolding_all rfl
  have hclosed : ∀ cause, ((work strandedDeeds (.new Relay.syntaxOnly)).close cause).engine.calls =
      [(1, ⟨.client "d", .checking 0 none, false⟩)] := fun cause => by
    with_unfolding_all rfl
  refine ⟨by with_unfolding_all rfl, ?_, fun cause => ?_⟩
  · rw [hcalls]
    exact ⟨_, List.mem_cons_self, rfl⟩
  · rw [hclosed]
    exact ⟨_, List.mem_cons_self, rfl⟩

end Engine

end LanguageRelay
