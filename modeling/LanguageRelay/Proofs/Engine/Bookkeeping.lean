import LanguageRelay.Proofs.Engine.Moments
import LanguageRelay.Proofs.Engine.Standing
/-!
# The engine keeps the ledger

Over one relay without documents, every action is one step of the ledger
(`step_perform`): what the engine does when a call runs on is a long way
around, but it comes to moving on or ending that one call.
-/

namespace LanguageRelay

namespace Engine

/-- The engine has one relay, and that has no documents. -/
def Plain (link : Link) (e : Engine) : Prop := e.relays = [.upon e.setup link]

/-- The ledger of an engine that has some jobs of a turn left. -/
def ledger (link : Link) (todo : List Job) (e : Engine) : Ledger :=
  ⟨e.setup, link, e.calls, e.lastCall, e.agenda.now, todo ++ e.agenda.ready, e.agenda.timers,
    e.ended⟩

variable {link link' : Link} {todo : List Job} {e : Engine} {id seq : Nat} {c : Call}

theorem Plain.relay (h : e.Plain link) : e.relay 0 = .upon e.setup link := by
  have hrelays : e.relays = [.upon e.setup link] := h
  simp [Engine.relay, hrelays]

/-! ## What moves an entry -/

/-- Jobs put in line come last in the ledger. -/
theorem ledger_post (job : Job) :
    (e.post job).ledger link todo =
      { e.ledger link todo with jobs := (e.ledger link todo).jobs ++ [job] } := by
  simp [ledger, post, Agenda.post]

/-- Looking up a call is looking into the ledger. -/
theorem mem_of_call? (h : e.call? id = some c) : (id, c) ∈ e.calls := Table.mem_of_get? h

/-- A call that is changed has a new value. -/
theorem update_of_call? (h : e.call? id = some c) {f : Call → Call} :
    Table.update id f e.calls = Table.update id (fun _ => f c) e.calls := by
  have hget : Table.get? id e.calls = some c := h
  rw [Table.update_eq_put f hget, Table.update_eq_put (fun _ => f c) hget]

/-! ## A call that is made -/

section Made

variable (hmade : ∀ x ∈ e.calls, x.1 ≤ e.lastCall)

include hmade

/-- Calls are numbered upwards, so the next number is no call's. -/
theorem next_not_mem_keys : e.lastCall + 1 ∉ Table.keys e.calls := by
  intro hmem
  obtain ⟨x, hx, heq⟩ := List.mem_map.mp hmem
  have hle := hmade x hx
  omega

/-- A call that is made comes behind all others. -/
theorem calls_spawn (role : Role) (work : Work) : (e.spawn role work).calls =
    e.calls ++ [(e.lastCall + 1, ⟨role, .created work, false⟩)] :=
  Table.put_of_not_mem _ (next_not_mem_keys hmade)

/-- So it leaves those there are. -/
theorem call?_spawn (hcall : e.call? id = some c) (role : Role) (work : Work) :
    (e.spawn role work).call? id = some c := by
  have hle : id ≤ e.lastCall := hmade _ (mem_of_call? hcall)
  have hne : e.lastCall + 1 ≠ id := by omega
  change Table.get? id (Table.put (e.lastCall + 1) _ e.calls) = some c
  rw [Table.get?_put, if_neg hne]
  exact hcall

end Made

/-! ## Commands that are withdrawn -/

/-- A relay without documents withdraws a command on its connection. -/
theorem plain_withdraw (h : e.Plain link) (seq : Nat) :
    (e.mapRelay 0 (Relay.withdraw seq)).Plain
      { link with pending := link.pending.map (Pending.withdraw seq) } := by
  have hrelays : e.relays = [.upon e.setup link] := h
  simp [Plain, mapRelay, setRelay, h.relay, hrelays, Relay.withdraw, Relay.upon]

/-- So it takes one off the list. -/
theorem plain_unlist (h : e.Plain link) (seq : Nat) :
    (e.mapRelay 0 (Relay.unlist seq)).Plain
      { link with pending := link.pending.filter fun p => p.seq ≠ seq } := by
  have hrelays : e.relays = [.upon e.setup link] := h
  simp [Plain, mapRelay, setRelay, h.relay, hrelays, Relay.unlist, Relay.upon]

end Engine

namespace Link

variable {link : Link}

theorem Touched.refl (h : link.Sound) (seq? : Option Nat) : link.Touched seq? link :=
  ⟨h, Nat.le_refl _, fun _ hp _ => hp⟩

theorem Touched.trans {link' link'' : Link} {seq? : Option Nat} (h : link.Touched seq? link')
    (h' : link'.Touched seq? link'') : link.Touched seq? link'' :=
  ⟨h'.sound, Nat.le_trans h.last h'.last, fun p hp hne => h'.kept p (h.kept p hp hne) hne⟩

/-- A number that is taken for nothing changes nothing else. -/
theorem touched_take (h : link.Sound) (seq? : Option Nat) :
    link.Touched seq? { link with last := link.last + 1 } :=
  ⟨⟨h.listed, fun p hp => Nat.le_succ_of_le (h.numbered p hp), h.shut, h.unlimited⟩,
    Nat.le_succ _, fun _ hp _ => hp⟩

/-- Listing a command changes the connection for its number alone. -/
theorem touched_expect (h : link.Sound) (hopen : link.closed = none) (command : String) :
    link.Touched (some (link.last + 1))
      { link with
        last := link.last + 1
        pending := link.pending ++ [⟨link.last + 1, command, false⟩] } := by
  refine ⟨⟨?_, fun p hp => ?_, fun hclosed => ?_, h.unlimited⟩, Nat.le_succ _,
    fun p hp _ => List.mem_append_left _ hp⟩
  · rw [List.map_append, List.map_cons, List.map_nil]
    refine h.listed.append (by simp) fun seq hseq hnew => ?_
    obtain ⟨p, hp, rfl⟩ := List.mem_map.mp hseq
    have hle := h.numbered p hp
    have heq : p.seq = link.last + 1 := List.mem_singleton.mp hnew
    omega
  · rcases List.mem_append.mp hp with hp | hp
    · exact Nat.le_succ_of_le (h.numbered p hp)
    · exact Nat.le_of_eq (by rw [List.mem_singleton.mp hp])
  · simp [hopen] at hclosed

/-- Withdrawing a command changes the connection for its number alone. -/
theorem touched_withdraw (h : link.Sound) (seq : Nat) :
    link.Touched (some seq) { link with pending := link.pending.map (Pending.withdraw seq) } := by
  have hseq : (link.pending.map (Pending.withdraw seq)).map Pending.seq =
      link.pending.map Pending.seq := by
    rw [List.map_map]
    refine List.map_congr_left fun p _ => ?_
    simp only [Function.comp_apply, Pending.withdraw]
    split <;> rfl
  refine ⟨⟨by rw [hseq]; exact h.listed, fun p hp => ?_, fun hclosed => ?_, h.unlimited⟩,
    Nat.le_refl _, fun p hp hne => List.mem_map.mpr ⟨p, hp, ?_⟩⟩
  · have hmem : p.seq ∈ link.pending.map Pending.seq := hseq ▸ List.mem_map_of_mem hp
    obtain ⟨p', hp', heq⟩ := List.mem_map.mp hmem
    exact heq ▸ h.numbered p' hp'
  · simp [h.shut hclosed]
  · exact if_neg fun heq => hne (by rw [heq])

/-- So does taking it off the list. -/
theorem touched_unlist (h : link.Sound) (seq : Nat) :
    link.Touched (some seq) { link with pending := link.pending.filter fun p => p.seq ≠ seq } := by
  refine ⟨⟨h.listed.sublist (List.filter_sublist.map _),
    fun p hp => h.numbered p (List.mem_filter.mp hp).1, fun hclosed => by simp [h.shut hclosed],
    h.unlimited⟩, Nat.le_refl _, fun p hp hne => ?_⟩
  refine List.mem_filter.mpr ⟨hp, ?_⟩
  simpa using fun heq => hne (by rw [heq])

end Link

/-! ## A call that waits for its command -/

/-- A call of a request that waits for its command. -/
def Call.asks (name : String) (seq : Nat) (ask : Ask) (watch : Watch)
    (outcome : Option (Except Failure Json)) (cancelled : Bool) : Call :=
  ⟨.client name, .asking 0 seq ask watch outcome (.answer .raw), cancelled⟩

namespace Ledger

variable {l : Ledger} {ev : Written → Option Event} {id seq : Nat} {name : String} {ask : Ask}
variable {watch watch' : Watch} {outcome outcome' : Option (Except Failure Json)}
variable {cancelled cancelled' : Bool} {done rest js : List Job} {link' : Link}

theorem answered_asks :
    (Call.asks name seq ask watch outcome cancelled).Answered ↔ outcome.isSome := by
  constructor
  · rintro ⟨i, seq', ask', watch', o, next, hstage⟩
    cases hstage
    rfl
  · intro h
    obtain ⟨o, rfl⟩ := Option.isSome_iff_exists.mp h
    exact ⟨_, _, _, _, _, _, rfl⟩

theorem of_asks {q : Written} (h : (Call.asks name seq ask watch outcome cancelled).Of q) :
    q.name = name ∧ q.seq = seq ∧ q.ask = ask ∧ (watch = .unbounded ↔ q.ask.window = none) := by
  obtain ⟨call, name', seq', ask'⟩ := q
  cases h with
  | intro _ _ _ hwatch => exact ⟨rfl, rfl, rfl, hwatch⟩

/-- A call that waits is that of its request. -/
theorem asks_of {q : Written} (hwatch : watch = .unbounded ↔ q.ask.window = none) :
    (Call.asks q.name q.seq q.ask watch outcome cancelled).Of q :=
  .intro watch outcome cancelled hwatch

/-- **A call that waits moves on**: its number, its command and whether it has a
window stay as they are. -/
theorem step_asks (done js : List Job) (hvalid : l.Valid)
    (hcall : (id, .asks name seq ask watch outcome cancelled) ∈ l.calls)
    (hjobs : l.jobs = done ++ rest) (hown : ∀ job ∈ done, job.call? = some id)
    (htouched : l.link.Touched (some seq) link') (hwatch : watch' = .unbounded ↔ watch = .unbounded)
    (houtcome : outcome' = outcome ∧ link' = l.link ∨ outcome'.isSome)
    (hposted : ∀ job ∈ js, job = .resume id ∨ job = .passOn id seq ∧ outcome'.isSome)
    (hattended : watch'.Attended id seq (rest ++ js) l.timers outcome' cancelled')
    (hother : ∀ q, q.call ≠ id → ev q = none)
    (hfate : ∀ q, q.call = id → q.seq = seq → q.ask = ask →
      (watch = .unbounded ↔ q.ask.window = none) →
      watch'.fate outcome' cancelled' = (watch.fate outcome cancelled).after q (ev q)) :
    Step l none ev
      { l with
        link := link'
        calls := Table.update id (fun _ => .asks name seq ask watch' outcome' cancelled') l.calls
        jobs := rest ++ js } := by
  have hof' : ∀ q, (Call.asks name seq ask watch outcome cancelled).Of q →
      (Call.asks name seq ask watch' outcome' cancelled').Of q := by
    intro q hof
    obtain ⟨rfl, rfl, rfl, hwindow⟩ := of_asks hof
    exact asks_of (hwatch.trans hwindow)
  have hproper : (Call.asks name seq ask watch' outcome' cancelled').Proper link' := by
    cases hvalid.proper _ hcall with
    | asking q hof hle hlisted =>
      refine .asking q (hof' q hof) (Nat.le_trans hle htouched.last) fun hopen => ?_
      rw [answered_asks] at hopen hlisted
      obtain ⟨rfl, rfl⟩ := houtcome.resolve_right hopen
      exact hlisted hopen
  have hstep : Step l none ev
      { l with
        link := link'
        calls := Table.update id (fun _ => .asks name seq ask watch' outcome' cancelled') l.calls
        jobs := rest ++ js
        timers := l.timers ++ [] } := by
    refine .moved (c := .asks name seq ask watch outcome cancelled) hother
      ⟨hcall, hjobs, hown, htouched⟩ hproper rfl (.inl rfl) ?_ ?_ (by simp) ?_ ?_
    · rw [answered_asks, answered_asks]
      intro hdone
      rcases houtcome with ⟨rfl, -⟩ | hdone'
      · exact hdone
      · exact hdone'
    · intro job hjob
      refine (hposted job hjob).imp_right fun h => ⟨seq, h.1, rfl, answered_asks.mpr h.2⟩
    · rw [List.append_nil]
      exact hattended
    · intro q hid hof
      obtain ⟨-, hseq, hask, hwindow⟩ := of_asks hof
      exact ⟨hof' q hof, hfate q hid hseq hask hwindow⟩
  rwa [List.append_nil] at hstep

/-- **A call stays as it is**, and may be put in line. -/
theorem step_stays (done js : List Job) {c : Call} (hvalid : l.Valid)
    (hcall : (id, c) ∈ l.calls)
    (hjobs : l.jobs = done ++ rest) (hown : ∀ job ∈ done, job.call? = some id)
    (hposted : ∀ job ∈ js, job = .resume id) (hattended : c.Attended id (rest ++ js) l.timers)
    (hother : ∀ q, q.call ≠ id → ev q = none)
    (hfate : ∀ q, q.call = id → c.Of q → c.fate.after q (ev q) = c.fate) :
    Step l none ev { l with jobs := rest ++ js } := by
  have hstep : Step l none ev
      { l with
        link := l.link
        calls := Table.update id (fun _ => c) l.calls
        jobs := rest ++ js
        timers := l.timers ++ [] } := by
    refine .moved hother ⟨hcall, hjobs, hown, .refl hvalid.link _⟩ (hvalid.proper _ hcall) rfl
      (.inl rfl) (fun h => h) (fun job hjob => .inl (hposted job hjob)) (by simp) ?_
      fun q hid hof => ⟨hof, (hfate q hid hof).symm⟩
    rw [List.append_nil]
    exact hattended
  rwa [List.append_nil, Table.update_self hvalid.apart.single hcall] at hstep

/-- **A call writes its command** and waits for the outcome, or has given it up
at once. -/
theorem step_writes (done js : List Job) (set : List (Timer Job)) {command : String}
    {arguments : Json} {window : Option Duration}
    (hcall : (id, .fresh name command arguments window cancelled) ∈ l.calls)
    (hjobs : l.jobs = done ++ rest) (hown : ∀ job ∈ done, job.call? = some id)
    (htouched : l.link.Touched (some (l.link.last + 1)) link') (hlast : l.link.last < link'.last)
    (hwatch : watch = .unbounded ↔ ask.window = none)
    (hlisted : outcome = none → ⟨l.link.last + 1, ask.command, false⟩ ∈ link'.pending)
    (hposted : ∀ job ∈ js, job = .passOn id (l.link.last + 1) ∧ outcome.isSome)
    (hset : ∀ t ∈ set, t.job = .expire id (l.link.last + 1))
    (hattended : watch.Attended id (l.link.last + 1) (rest ++ js) (l.timers ++ set) outcome false)
    (hother : ∀ q, q.call ≠ id → ev q = none) :
    Step l none ev
      { l with
        link := link'
        calls := Table.update id
          (fun _ => .asks name (l.link.last + 1) ask watch outcome false) l.calls
        jobs := rest ++ js
        timers := l.timers ++ set } := by
  refine .moved (c := .fresh name command arguments window cancelled) hother
    ⟨hcall, hjobs, hown, htouched⟩ ?_ rfl (.inr ⟨rfl, rfl, hlast⟩) ?_ ?_ ?_ hattended
    fun q _ hof => by cases hof
  · refine .asking ⟨id, name, l.link.last + 1, ask⟩ (.intro watch outcome false hwatch) hlast
      fun hopen => hlisted ?_
    rw [← Option.not_isSome_iff_eq_none]
    exact fun hsome => hopen (answered_asks.mpr hsome)
  · rintro ⟨i, seq', ask', watch', o, next, hstage⟩
    cases hstage
  · intro job hjob
    obtain ⟨hown, hdone⟩ := hposted job hjob
    exact .inr ⟨_, hown, rfl, answered_asks.mpr hdone⟩
  · exact fun t ht => ⟨rfl, _, hset t ht, rfl⟩

/-- A call that has not run is to be cancelled when it does. -/
theorem step_fresh_noted (hvalid : l.Valid) {command : String} {arguments : Json}
    {window : Option Duration}
    (hcall : (id, .fresh name command arguments window cancelled) ∈ l.calls)
    (hother : ∀ q, q.call ≠ id → ev q = none) :
    Step l none ev
      { l with
        calls :=
          Table.update id (fun _ => .fresh name command arguments window true) l.calls } := by
  have hstep : Step l none ev
      { l with
        link := l.link
        calls := Table.update id (fun _ => .fresh name command arguments window true) l.calls
        jobs := l.jobs ++ []
        timers := l.timers ++ [] } := by
    refine .moved (c := .fresh name command arguments window cancelled) hother
      ⟨hcall, (List.nil_append l.jobs).symm, by simp, .refl hvalid.link _⟩ (.fresh ..) rfl
      (.inl rfl) ?_ (by simp) (by simp) ?_ fun q _ hof => ?_
    · rintro ⟨i, seq', ask', watch', o, next, hstage⟩
      cases hstage
    · rw [List.append_nil, List.append_nil]
      exact hvalid.attended _ hcall
    · cases hof
  rwa [List.append_nil, List.append_nil] at hstep

end Ledger

namespace Engine

variable {link link' : Link} {done todo js : List Job} {e : Engine} {ev : Written → Option Event}
variable {id seq : Nat} {c : Call} {name : String} {ask : Ask} {watch watch' : Watch}
variable {outcome outcome' : Option (Except Failure Json)} {cancelled cancelled' : Bool}

/-- The calls of a ledger in order are those of requests. -/
theorem call_cases (hvalid : (e.ledger link todo).Valid) (hcall : e.call? id = some c) :
    (∃ name command arguments window cancelled,
      c = .fresh name command arguments window cancelled) ∨
    ∃ name seq ask watch outcome cancelled, c = .asks name seq ask watch outcome cancelled := by
  cases hvalid.proper _ (mem_of_call? hcall) with
  | fresh name command arguments window cancelled => exact .inl ⟨_, _, _, _, _, rfl⟩
  | asking q hof _ _ =>
    cases hof
    exact .inr ⟨_, _, _, _, _, _, rfl⟩

/-- What comes for a call alone. -/
def only (id : Nat) (event : Event) (q : Written) : Option Event :=
  if q.call = id then some event else none

theorem only_of_ne {event : Event} {q : Written} (h : q.call ≠ id) : only id event q = none :=
  if_neg h

theorem only_of_eq {event : Event} {q : Written} (h : q.call = id) :
    only id event q = some event :=
  if_pos h

/-- A call that is not there misses what comes for it. -/
theorem not_mem_of_call? (h : e.call? id = none) (c : Call) : (id, c) ∉ e.calls := by
  intro hmem
  have hkey : id ∈ Table.keys e.calls := List.mem_map_of_mem (f := Prod.fst) hmem
  rw [Table.mem_keys_iff] at hkey
  have hget : Table.get? id e.calls = none := h
  simp [hget] at hkey

/-- Nothing changes but the relays, one call and the line. -/
structure Changes (id : Nat) (f : Call → Call) (js : List Job) (e e' : Engine) : Prop where
  setup : e'.setup = e.setup
  calls : e'.calls = Table.update id f e.calls
  lastCall : e'.lastCall = e.lastCall
  now : e'.agenda.now = e.agenda.now
  ready : e'.agenda.ready = e.agenda.ready ++ js
  timers : e'.agenda.timers = e.agenda.timers
  ended : e'.ended = e.ended

theorem Changes.post {e' : Engine} {f : Call → Call} (h : Changes id f [] e e') (job : Job) :
    Changes id f [job] e (e'.post job) :=
  ⟨h.setup, h.calls, h.lastCall, h.now, by simp [Engine.post, Agenda.post, h.ready], h.timers,
    h.ended⟩

theorem Changes.of_mapRelay {e' : Engine} {f : Call → Call} {i : Nat} {g : Relay → Relay}
    (h : Changes id f js (e.mapRelay i g) e') : Changes id f js e e' :=
  ⟨h.setup, h.calls, h.lastCall, h.now, h.ready, h.timers, h.ended⟩

theorem changes_amend (id : Nat) (stage : Stage) (e : Engine) :
    Changes id (fun c => { c with stage }) [] e (e.amend id stage) :=
  ⟨rfl, rfl, rfl, rfl, (List.append_nil _).symm, rfl, rfl⟩

theorem changes_await (id : Nat) (stage : Stage) (e : Engine) :
    Changes id (fun c => { c with stage, cancelled := false }) [] e (e.await id stage) :=
  ⟨rfl, rfl, rfl, rfl, (List.append_nil _).symm, rfl, rfl⟩

theorem changes_markCancelled (id : Nat) (e : Engine) :
    Changes id (fun c => { c with cancelled := true }) [] e (e.markCancelled id) :=
  ⟨rfl, rfl, rfl, rfl, (List.append_nil _).symm, rfl, rfl⟩

/-- The ledger of an engine in which one call changed. -/
theorem Changes.ledger {e' : Engine} {f : Call → Call} (h : Changes id f js e e')
    (hcall : e.call? id = some c) (link link' : Link) (todo : List Job) :
    e'.ledger link' todo =
      { e.ledger link todo with
        link := link'
        calls := Table.update id (fun _ => f c) e.calls
        jobs := todo ++ e.agenda.ready ++ js } := by
  simp [Engine.ledger, h.setup, h.calls, h.lastCall, h.now, h.ready, h.timers, h.ended,
    update_of_call? hcall]

/-- **A call that waits moves on in the engine.** -/
theorem step_changes (done : List Job) (watch' : Watch) (outcome' : Option (Except Failure Json))
    (cancelled' : Bool) {e' : Engine} {f : Call → Call} (hchanges : Changes id f js e e')
    (hvalid : (e.ledger link (done ++ todo)).Valid)
    (hcall : e.call? id = some (.asks name seq ask watch outcome cancelled))
    (hf : f (.asks name seq ask watch outcome cancelled) =
      .asks name seq ask watch' outcome' cancelled')
    (hown : ∀ job ∈ done, job.call? = some id) (htouched : link.Touched (some seq) link')
    (hwatch : watch' = .unbounded ↔ watch = .unbounded)
    (houtcome : outcome' = outcome ∧ link' = link ∨ outcome'.isSome)
    (hposted : ∀ job ∈ js, job = .resume id ∨ job = .passOn id seq ∧ outcome'.isSome)
    (hattended : watch'.Attended id seq (todo ++ e.agenda.ready ++ js) e.agenda.timers outcome'
      cancelled')
    (hother : ∀ q, q.call ≠ id → ev q = none)
    (hfate : ∀ q, q.call = id → q.seq = seq → q.ask = ask →
      (watch = .unbounded ↔ q.ask.window = none) →
      watch'.fate outcome' cancelled' = (watch.fate outcome cancelled).after q (ev q)) :
    (e.ledger link (done ++ todo)).Step none ev (e'.ledger link' todo) := by
  have hstep := Ledger.step_asks done js hvalid (mem_of_call? hcall)
    (List.append_assoc done todo e.agenda.ready) hown htouched hwatch houtcome hposted hattended
    hother hfate
  rw [hchanges.ledger hcall link link' todo, hf]
  exact hstep

/-- A cancellation that is noted for when a call runs. -/
theorem step_noted (hvalid : (e.ledger link todo).Valid)
    (hcall : e.call? id = some (.asks name seq ask watch outcome cancelled))
    (hpending : watch ≠ .windowed .pending) (hunbounded : watch = .unbounded → outcome.isSome) :
    (e.ledger link todo).Step none (only id .cancelled)
      ((e.markCancelled id).ledger link todo) := by
  have hattended := hvalid.attended _ (mem_of_call? hcall)
  change watch.Attended id seq (todo ++ e.agenda.ready) e.agenda.timers outcome cancelled
    at hattended
  refine step_changes [] watch outcome true (changes_markCancelled id e) hvalid hcall rfl (by simp)
    (.refl hvalid.link _) Iff.rfl (.inl ⟨rfl, rfl⟩) (by simp) ?_ (fun q => only_of_ne)
    fun q hid _ _ hwindow => ?_
  · rw [List.append_nil]
    cases watch with
    | unbounded => exact fun _ => hattended (.inl (hunbounded rfl))
    | windowed signal =>
      cases signal with
      | pending => exact absurd rfl hpending
      | raised => exact hattended
      | cancelled => exact hattended
    | ending why => exact hattended
  · rw [only_of_eq hid]
    exact Watch.fate_noted hwindow

/-! ## Cancelling -/

/-- A call that has been woken is only marked. -/
theorem cancel_of_woken (hcall : e.call? id = some (.asks name seq ask watch outcome cancelled))
    (hpending : watch ≠ .windowed .pending) (hunbounded : watch = .unbounded → outcome.isSome) :
    e.cancel id = e.markCancelled id := by
  cases watch with
  | unbounded =>
    obtain ⟨o, rfl⟩ := Option.isSome_iff_exists.mp (hunbounded rfl)
    simp [cancel, cancelSimple, hcall, Call.asks]
  | windowed signal =>
    cases signal with
    | pending => exact absurd rfl hpending
    | raised => simp [cancel, cancelSimple, hcall, Call.asks]
    | cancelled => simp [cancel, cancelSimple, hcall, Call.asks]
  | ending why => simp [cancel, cancelSimple, hcall, Call.asks]

/-- A call that waits within its window is woken to give its command up. -/
theorem step_cancel_windowed (hplain : e.Plain link) (hvalid : (e.ledger link todo).Valid)
    (hcall : e.call? id =
      some (.asks name seq ask (.windowed .pending) outcome cancelled)) :
    (e.cancel id).Plain link ∧
      (e.ledger link todo).Step none (only id .cancelled) ((e.cancel id).ledger link todo) := by
  have hcancel : e.cancel id = (e.amend id
      (.asking 0 seq ask (.windowed .cancelled) outcome (.answer .raw))).post (.resume id) := by
    simp [cancel, cancelSimple, hcall, Call.asks]
  rw [hcancel]
  refine ⟨hplain, step_changes [] (.windowed .cancelled) outcome cancelled
    ((changes_amend id _ e).post (.resume id)) hvalid hcall rfl (by simp) (.refl hvalid.link _)
    (by simp) (.inl ⟨rfl, rfl⟩) (by simp) ?_ (fun q => only_of_ne) fun q hid _ _ hwindow => ?_⟩
  · exact List.mem_append_right _ (List.mem_singleton_self _)
  · rw [only_of_eq hid]
    exact Watch.fate_windowed_cancel fun hnone => by cases hwindow.mpr hnone

/-- A call that waits without a window has its command withdrawn, and is woken
as cancelled. -/
theorem step_cancel_unbounded (hplain : e.Plain link) (hvalid : (e.ledger link todo).Valid)
    (hcall : e.call? id = some (.asks name seq ask .unbounded none cancelled)) :
    (e.cancel id).Plain { link with pending := link.pending.map (Pending.withdraw seq) } ∧
      (e.ledger link todo).Step none (only id .cancelled)
        ((e.cancel id).ledger { link with pending := link.pending.map (Pending.withdraw seq) }
          todo) := by
  have hcancel : e.cancel id = ((e.mapRelay 0 (Relay.withdraw seq)).amend id
      (.asking 0 seq ask .unbounded (some (.error .cancelled)) (.answer .raw))).post
        (.resume id) := by
    simp [cancel, cancelSimple, hcall, Call.asks]
  rw [hcancel]
  refine ⟨plain_withdraw hplain seq, step_changes [] .unbounded (some (.error .cancelled))
    cancelled ((changes_amend id _ _).post (.resume id)).of_mapRelay hvalid hcall rfl (by simp)
    (Link.touched_withdraw hvalid.link seq) Iff.rfl (.inr rfl) (by simp) (fun _ => by simp)
    (fun q => only_of_ne) fun q hid _ _ hwindow => ?_⟩
  rw [only_of_eq hid]
  exact Watch.fate_unbounded_cancel (hwindow.mp rfl)

/-- **Cancelling is a step.** -/
theorem step_cancel (hplain : e.Plain link) (hvalid : (e.ledger link todo).Valid) (id : Nat) :
    ∃ link', (e.cancel id).Plain link' ∧
      (e.ledger link todo).Step none (only id .cancelled) ((e.cancel id).ledger link' todo) := by
  cases hcall : e.call? id with
  | none =>
    have hcancel : e.cancel id = e := by simp [cancel, cancelSimple, hcall]
    rw [hcancel]
    exact ⟨link, hplain, Ledger.Step.missed [] (fun q => only_of_ne) (not_mem_of_call? hcall) rfl
      (by simp)⟩
  | some c =>
    have hmem := mem_of_call? hcall
    rcases call_cases hvalid hcall with ⟨name, command, arguments, window, cancelled, rfl⟩ |
      ⟨name, seq, ask, watch, outcome, cancelled, rfl⟩
    · have hcancel : e.cancel id = e.markCancelled id := by
        simp [cancel, cancelSimple, hcall, Call.fresh]
      rw [hcancel]
      refine ⟨link, hplain, ?_⟩
      rw [(changes_markCancelled id e).ledger hcall link link todo, List.append_nil]
      exact Ledger.step_fresh_noted hvalid hmem fun q => only_of_ne
    · by_cases hpending : watch = .windowed .pending
      · subst hpending
        exact ⟨link, step_cancel_windowed hplain hvalid hcall⟩
      · by_cases hunbounded : watch = .unbounded ∧ outcome = none
        · obtain ⟨rfl, rfl⟩ := hunbounded
          exact ⟨_, step_cancel_unbounded hplain hvalid hcall⟩
        · have hsome : watch = .unbounded → outcome.isSome := fun h =>
            Option.isSome_iff_ne_none.mpr fun hnone => hunbounded ⟨h, hnone⟩
          rw [cancel_of_woken hcall hpending hsome]
          exact ⟨link, hplain, step_noted hvalid hcall hpending hsome⟩

end Engine

end LanguageRelay
