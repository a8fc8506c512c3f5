import LanguageRelay.Proofs.Desk.Callers
/-!
# Who is served

A call that goes on leaves the hall (`Departed`). If it needs the analysis server
it then takes the desk, stands in line or is served. Who is served by a job, and
whom it passes, is told from the engine before the job (`serving?`); a hall that
is tended stays so, with that call served (`tends_dispatch`).
-/

namespace LanguageRelay

/-- The relay that a call has started, and the handler it was started for, if the
call goes on with it. -/
def Call.started? (c : Call) : Option (Nat × Handler) :=
  match c.stage with
  | .asking i _ _ .unbounded (some (.ok _)) (.startup h) =>
    if c.cancelled then none else some (i, h)
  | .asking i _ _ (.windowed signal) (some (.ok _)) (.startup h) =>
    if c.cancelled || signal != .pending then some (i, h) else none
  | _ => none

namespace Engine

/-- The handler that is served by a job, if one is. A call that is served when it
first runs goes ahead of those in line that were not cancelled. -/
def serving? (e : Engine) (job : Job) : Option Serving :=
  match job with
  | .resume id =>
    (e.call? id).bind fun c =>
      match c.stage with
      | .created (.handle .shutdown) => none
      | .created (.handle h) =>
        if c.cancelled then none
        else e.desk.current.map fun i =>
          ⟨id, i, h, (e.desk.line.filter fun t => t.signal ≠ .cancelled).map Ticket.call⟩
      | .queued h =>
        if !c.cancelled && e.desk.line.any fun t => t.call == id && t.signal == .raised then
          e.desk.current.map fun i => ⟨id, i, h, []⟩
        else none
      | _ => c.started?.map fun r => ⟨id, r.1, r.2, []⟩
  | _ => none

/-- The line with one more call. -/
def joinLine (id : Nat) (e : Engine) : Engine :=
  e.mapDesk fun d => { d with line := d.line ++ [⟨id, .pending⟩] }

/-- The line without a call. -/
def leaveLine (id : Nat) (e : Engine) : Engine :=
  e.mapDesk fun d => { d with line := d.line.filter fun t => t.call ≠ id }

/-- **A call has left the hall**, and is on the roll no more until it is back or
has ended. -/
structure Departed (called : List (Nat × Handler)) (served : List Serving)
    (roll : List (Nat × String)) (id : Nat) (role : Role) (handler : Handler) (todo : List Job)
    (e : Engine) : Prop where
  tends : e.Tends called served (roll.filter fun entry => entry.1 ≠ id) (some id) todo
  call : ∃ c, e.call? id = some c ∧ c.role = role
  /-- It was called for this. -/
  claim : (id, handler) ∈ called
  owed : ∀ entry ∈ roll, entry.1 = id → entry.1 ∈ served.map Serving.call ∨
    (e.hall (some id) todo).Failed entry.2 ∨ role = .client entry.2

variable {called : List (Nat × Handler)} {served : List Serving} {roll : List (Nat × String)}
variable {todo : List Job} {e e' : Engine} {id : Nat} {c : Call} {role : Role} {handler : Handler}

/-! ## A call leaves the hall -/

theorem hall_leaveLine (id : Nat) (todo : List Job) (e : Engine) :
    (e.leaveLine id).hall (some id) todo =
      { (e.hall none (.resume id :: todo)).without id with jobs := todo ++ e.agenda.ready } := by
  have hcallers : {d | d ∈ e.callers ∧ some id ≠ some d.number} =
      ((e.hall none (.resume id :: todo)).without id).callers := by
    ext d
    exact ⟨fun hd => ⟨⟨hd.1, nofun⟩, fun heq => hd.2 (congrArg some heq.symm)⟩,
      fun hd => ⟨hd.1.1, fun heq => hd.2 (Option.some.inj heq).symm⟩⟩
  exact congrArg (fun callers => { (e.leaveLine id).hall (some id) todo with callers }) hcallers

theorem foremost_leaveLine
    (hforemost : ((e.hall none (.resume id :: todo)).without id).Foremost served id) :
    ((e.leaveLine id).hall (some id) todo).Foremost served id := by
  rw [hall_leaveLine]
  exact ⟨hforemost.served, hforemost.fresh, hforemost.line, hforemost.starting⟩

/-- Where a call has no ticket the line is the same without it. -/
theorem leaveLine_of_ticketless (hline : ∀ t ∈ e.desk.line, t.call ≠ id) : e.leaveLine id = e := by
  have hsame : (e.desk.line.filter fun t => t.call ≠ id) = e.desk.line :=
    List.filter_eq_self.mpr fun t ht => by simpa using hline t ht
  simp only [leaveLine, mapDesk, hsame]

namespace Tends

/-- Whoever leaves the hall had been accounted for. -/
theorem owed (h : e.Tends called served roll none todo) (hcall : e.call? id = some c) :
    ∀ entry ∈ roll, entry.1 = id → entry.1 ∈ served.map Serving.call ∨
      (e.hall none todo).Failed entry.2 ∨ c.role = .client entry.2 ∧ c.stage.place ≠ .beyond := by
  intro entry hentry hid
  rcases h.tended.accounted entry hentry with hserved | ⟨d, hd, hnumber, hrole, hplace⟩ | hfailed
  · exact .inl hserved
  · obtain rfl := eq_of_number h.single hd.1 (mem_callers hcall) (hnumber.trans hid)
    exact .inr (.inr ⟨hrole, hplace⟩)
  · exact .inr (.inl hfailed)

/-- A call that does not stand in line has no ticket. -/
theorem ticketless (h : e.Tends called served roll none todo) (hcall : e.call? id = some c)
    (hplace : c.stage.place ≠ .inLine) : ∀ t ∈ e.desk.line, t.call ≠ id := by
  rintro t hmem rfl
  exact hplace (h.tended.inLine_of_ticket hmem (mem_hall hcall) rfl)

/-- A call has left the hall when the hall is tended without it. -/
theorem leaves (h : e.Tends called served roll none (.resume id :: todo))
    (hcall : e.call? id = some c) (hhandler : c.stage.handler? = some handler)
    (hcalls : e'.calls = e.calls) (hmade : e'.lastCall = e.lastCall)
    (hfailed : ∀ client, (e.hall none (.resume id :: todo)).Failed client →
      (e'.hall (some id) todo).Failed client)
    (htended : (e'.hall (some id) todo).Tended served (roll.filter fun entry => entry.1 ≠ id))
    (hvacant : (e'.hall (some id) todo).Vacant) :
    e'.Departed called served roll id c.role handler todo := by
  have hid : id ≤ e.lastCall :=
    h.tended.made _ (mem_hall hcall)
  have hcallers : e'.callers = e.callers := congrArg (List.map _) hcalls
  refine ⟨⟨hcalls ▸ h.single, hcallers ▸ h.claims, h.granted, hmade ▸ h.listed,
    fun n hn => Option.some.inj hn ▸ hmade ▸ hid, htended, hvacant⟩, ⟨c, ?_, rfl⟩,
    h.claims _ (mem_callers hcall) handler hhandler, fun entry hentry hid => ?_⟩
  · rw [call?, hcalls]
    exact hcall
  · exact (h.owed hcall entry hentry hid).imp_right (.imp (hfailed entry.2) And.left)

/-- **A call that does not stand in line goes on.** -/
theorem departs (h : e.Tends called served roll none (.resume id :: todo))
    (hcall : e.call? id = some c) (hhandler : c.stage.handler? = some handler)
    (hplace : c.stage.place ≠ .inLine) : e.Departed called served roll id c.role handler todo := by
  have hhall := hall_leaveLine id todo e
  rw [leaveLine_of_ticketless (h.ticketless hcall hplace)] at hhall
  refine h.leaves hcall hhandler rfl rfl (fun _ hfailed => hfailed) ?_ h.vacant
  rw [hhall]
  exact h.tended.depart rfl

/-- A call that asks nothing of the desk goes on. -/
theorem departs_beyond (h : e.Tends called served roll none (.resume id :: todo))
    (hcall : e.call? id = some c) (hplace : c.stage.place = .beyond) :
    e.Tends called served roll (some id) todo := by
  have hhall := hall_leaveLine id todo e
  rw [leaveLine_of_ticketless (h.ticketless hcall (by simp [hplace]))] at hhall
  have hid : id ≤ e.lastCall :=
    h.tended.made _ (mem_hall hcall)
  have hjobs : (e.hall none (.resume id :: todo)).jobs =
      .resume id :: (todo ++ e.agenda.ready) := rfl
  have htended := h.tended.depart hjobs
  rw [← hhall] at htended
  refine ⟨h.single, h.claims, h.granted, h.listed, fun n hn => Option.some.inj hn ▸ hid,
    htended.reenroll fun entry hentry hid => ?_, h.vacant⟩
  rcases h.owed hcall entry hentry hid with hserved | hfailed | ⟨-, hbeyond⟩
  · exact .inl hserved
  · exact .inr (.inr hfailed)
  · exact absurd hplace hbeyond

/-- A call that stands in line leaves it. -/
theorem departs_line (h : e.Tends called served roll none (.resume id :: todo)) :
    ((e.leaveLine id).hall (some id) todo).Tended served
      (roll.filter fun entry => entry.1 ≠ id) := by
  rw [hall_leaveLine]
  exact h.tended.depart rfl

end Tends

/-! ## A call comes back, or ends -/

/-- Starts in vain are made at the desk alone. -/
theorem Away.wasted (haway : Away e e') {out : Option Nat} :
    (e'.hall out todo).Wasted ↔ (e.hall out todo).Wasted := by
  simp [Hall.Wasted, hall, haway.launches, haway.locked, haway.current]

theorem Away.failed (haway : Away e e') {out : Option Nat} {client : String}
    (hfailed : (e.hall out todo).Failed client) : (e'.hall out todo).Failed client := by
  obtain ⟨f, hf, hwhy⟩ := hfailed
  obtain ⟨more, hended⟩ := haway.ended
  refine ⟨f, ?_, hwhy.imp_right haway.wasted.mpr⟩
  change _ ∈ e'.ended
  rw [hended]
  exact List.mem_append_left _ hf

/-- What is done away from the desk does not bring a call back. -/
theorem Departed.away (h : e.Departed called served roll id role handler todo) (haway : Away e e') :
    e'.Departed called served roll id role handler todo := by
  obtain ⟨c, hcall, rfl⟩ := h.call
  refine ⟨h.tends.away haway, haway.call? h.tends.single hcall, h.claim, fun entry hentry hid => ?_⟩
  exact (h.owed entry hentry hid).imp_right (.imp_left haway.failed)

/-- **The call fails**, as it was cancelled or the analysis server was started in
vain. -/
theorem Departed.fails (h : e.Departed called served roll id role handler todo) {f : Failure}
    (hwhy : f = .cancelled ∨ (e.hall (some id) todo).Wasted) :
    (e.finish id (.error f)).Tends called served roll none todo := by
  obtain ⟨c, hcall, rfl⟩ := h.call
  have haway := away_report c.role (.error f) { e with calls := Table.erase id e.calls }
  have hfinish : e.finish id (.error f) =
      ({ e with calls := Table.erase id e.calls } : Engine).report c.role (.error f) := by
    simp only [finish, hcall]
  have hfinished := h.tends.finish (.error f)
  refine { hfinished with tended := hfinished.tended.reenroll fun entry hentry hid => ?_ }
  rcases h.owed entry hentry hid with hserved | hfailed | hrole
  · exact .inl hserved
  · rw [hfinish]
    exact .inr (.inr (haway.failed hfailed))
  · rw [hfinish]
    refine .inr (.inr ⟨f, ?_, hwhy.imp_right fun hwasted => haway.wasted.mpr hwasted⟩)
    rw [hrole]
    exact List.mem_append_right _ (List.mem_singleton_self _)

/-- **The call is served**, as long as all who are to be served come after it. -/
theorem Departed.serves (h : e.Departed called served roll id role handler todo) {s : Serving}
    (hid : s.call = id) (hhandler : s.handler = handler)
    (hserved : ∀ s' ∈ served, s'.Before id)
    (hafter : ∀ d ∈ (e.hall (some id) todo).callers, (e.hall (some id) todo).Awaits d →
      s.Before d.number) : e.Tends called (served ++ [s]) roll (some id) todo := by
  subst hid hhandler
  have htended := h.tends.tended.serves hserved (h.tends.outside _ rfl) hafter
  refine { h.tends with
    granted := fun s' hs' => (List.mem_append.mp hs').elim (h.tends.granted s')
      fun hs' => List.mem_singleton.mp hs' ▸ h.claim
    tended := htended.reenroll fun entry _ hid => .inl ?_ }
  simp [hid]

/-- **The call waits** for the start of the analysis server. -/
theorem Departed.starts (h : e.Departed called served roll id role handler todo)
    (hforemost : (e.hall (some id) todo).Foremost served id) (hlocked : e.desk.locked = true)
    (hcurrent : e.desk.current = none) {stage : Stage} (hplace : stage.place = .starting)
    (hhandler : stage.handler? = some handler) :
    (e.await id stage).Tends called served roll none todo := by
  obtain ⟨c, hcall, rfl⟩ := h.call
  have hhall := hall_await h.tends.single hcall stage todo
  have hjoined := h.tends.tended.joined (c := ⟨id, c.role, stage.place, stage.handler?⟩)
    (fun d hd heq => hd.2 (congrArg some heq.symm)) (h.tends.outside id rfl)
    (.inr ⟨hplace, hforemost, hlocked, hcurrent⟩)
  refine ⟨by simpa [await] using h.tends.single, claims_await h.tends.single h.tends.claims ?_,
    h.tends.granted, h.tends.listed, nofun, ?_, hhall ▸ h.tends.vacant⟩
  · rw [hhandler]
    exact fun other heq => Option.some.inj heq ▸ h.claim
  rw [hhall]
  refine hjoined.reenroll fun entry hentry hid => ?_
  rcases h.owed entry hentry hid with hserved | hfailed | hrole
  · exact .inl hserved
  · exact .inr (.inr hfailed)
  · exact .inr (.inl ⟨_, Set.mem_insert _ _, hid.symm, hrole, by simp [hplace]⟩)

/-- **The call stands in line**, behind somebody who is to be served. -/
theorem Departed.queues (h : e.Departed called served roll id role handler todo)
    (hserved : ∀ s ∈ served, s.Before id)
    (hfresh : ∀ d ∈ (e.hall (some id) todo).callers, d.place = .fresh → id < d.number)
    (hbegun : ∀ d ∈ (e.hall (some id) todo).callers, d.place = .inLine ∨ d.place = .starting →
      d.number < id)
    (hbusy : e.desk.locked = true ∨ e.desk.line ≠ []) :
    ((e.joinLine id).await id (.queued handler)).Tends called served roll none todo := by
  obtain ⟨c, hcall, rfl⟩ := h.call
  have hqueued := h.tends.tended.queued c.role (some handler)
    (fun d hd heq => hd.2 (congrArg some heq.symm)) (h.tends.outside id rfl) hserved hfresh hbegun
  have hhall := hall_await (e := e.joinLine id) h.tends.single hcall (.queued handler) todo
  have hclaim : ∀ other, (Stage.queued handler).handler? = some other → (id, other) ∈ called :=
    fun other heq => Option.some.inj heq ▸ h.claim
  have hclaims := claims_await (e := e.joinLine id) h.tends.single h.tends.claims hclaim
  refine ⟨by simpa [await, joinLine, mapDesk] using h.tends.single, hclaims, h.tends.granted,
    h.tends.listed, by simp, ?_, ?_⟩
  · rw [hhall]
    refine Hall.Tended.reenroll hqueued fun entry hentry hid => ?_
    rcases h.owed entry hentry hid with hserved | hfailed | hrole
    · exact .inl hserved
    · exact .inr (.inr hfailed)
    · exact .inr (.inl ⟨_, Set.mem_insert _ _, hid.symm, hrole, by simp [Stage.place]⟩)
  · rw [hhall]
    intro hfree t ht
    rcases hbusy with hlocked | hline
    · exact absurd (hlocked.symm.trans hfree) (by simp)
    · obtain ⟨u, line, hline⟩ := List.exists_cons_of_ne_nil hline
      refine h.tends.vacant hfree t ?_
      change t ∈ (e.desk.line ++ [(⟨id, .pending⟩ : Ticket)]).head? at ht
      change t ∈ e.desk.line.head?
      rw [hline] at ht ⊢
      exact ht

/-! ## At the desk -/

@[simp] theorem calls_wakeFirst (e : Engine) : e.wakeFirst.calls = e.calls := by
  unfold wakeFirst
  split <;> rfl

@[simp] theorem lastCall_wakeFirst (e : Engine) : e.wakeFirst.lastCall = e.lastCall := by
  unfold wakeFirst
  split <;> rfl

@[simp] theorem ended_wakeFirst (e : Engine) : e.wakeFirst.ended = e.ended := by
  unfold wakeFirst
  split <;> rfl

/-- In the hall the first in line is woken. -/
theorem hall_wakeFirst (out : Option Nat) (todo : List Job) (e : Engine) :
    e.wakeFirst.hall out todo = (e.hall out todo).wakeFirst := by
  unfold wakeFirst Hall.wakeFirst
  cases hline : e.desk.line with
  | nil => simp [hall, hline]
  | cons t rest =>
    obtain ⟨call, signal⟩ := t
    cases signal with
    | pending => simp [hall, hline, mapDesk, post, Agenda.post, callers]
    | raised => simp [hall, hline]
    | cancelled => simp [hall, hline]

/-- A call has left the hall, and the line goes on without it, while nobody is at
the desk. -/
theorem Tends.leaves_free (h : e.Tends called served roll none (.resume id :: todo))
    (hcall : e.call? id = some c) (hhandler : c.stage.handler? = some handler)
    (hcalls : e'.calls = e.calls) (hmade : e'.lastCall = e.lastCall)
    (hfailed : ∀ client, (e.hall none (.resume id :: todo)).Failed client →
      (e'.hall (some id) todo).Failed client)
    (htended : (e'.hall (some id) todo).Tended served (roll.filter fun entry => entry.1 ≠ id))
    (hfree : e'.desk.locked = false) :
    e'.wakeFirst.Departed called served roll id c.role handler todo := by
  refine h.leaves hcall hhandler ((calls_wakeFirst e').trans hcalls)
    ((lastCall_wakeFirst e').trans hmade) (fun client hclient => ?_) ?_ ?_
  · rw [hall_wakeFirst]
    exact (hfailed client hclient).mono (Hall.ended_wakeFirst _) Hall.wasted_wakeFirst.mpr
  · rw [hall_wakeFirst]
    exact htended.wakeFirst hfree
  · rw [hall_wakeFirst]
    exact Hall.vacant_wakeFirst _

/-- **The desk is free again**, after the analysis server was put to use or not. -/
theorem Departed.unlocks (h : e.Departed called served roll id role handler todo)
    (hstarting : ∀ d ∈ (e.hall (some id) todo).callers, d.place ≠ .starting)
    (hsame : e' = { e with
      desk := { e.desk with current := e'.desk.current }
      record := e'.record })
    (hcurrent : e'.desk.current.isSome → e.desk.locked = true ∨ e.desk.current.isSome) :
    e'.unlock.Departed called served roll id role handler todo := by
  have hhall : e'.unlock.hall (some id) todo = Hall.wakeFirst
      { e.hall (some id) todo with current := e'.desk.current, locked := false } := by
    rw [unlock, hall_wakeFirst, hsame]
    rfl
  obtain ⟨c, hcall, rfl⟩ := h.call
  have hcalls : e'.unlock.calls = e.calls := by rw [unlock, calls_wakeFirst, hsame]; rfl
  have hcallers : e'.unlock.callers = e.callers := congrArg (List.map _) hcalls
  have hmade : e'.unlock.lastCall = e.lastCall := by rw [unlock, lastCall_wakeFirst, hsame]; rfl
  refine ⟨⟨hcalls ▸ h.tends.single, hcallers ▸ h.tends.claims, h.tends.granted,
    hmade ▸ h.tends.listed, hmade ▸ h.tends.outside, ?_, ?_⟩, ⟨c, ?_, rfl⟩, h.claim,
    fun entry hentry hid => ?_⟩
  · rw [hhall]
    exact (h.tends.tended.left hstarting hcurrent).wakeFirst rfl
  · rw [hhall]
    exact Hall.vacant_wakeFirst _
  · rw [call?, hcalls]
    exact hcall
  · refine (h.owed entry hentry hid).imp_right (.imp_left fun hfailed => ?_)
    rw [hhall]
    exact hfailed.mono (Hall.ended_wakeFirst _) fun hwasted =>
      Hall.wasted_wakeFirst.mpr (Hall.Tended.wasted_left hwasted hcurrent)

/-- A call that was starting the analysis server fails, and leaves the desk. -/
theorem Departed.fails_startup (h : e.Departed called served roll id role handler todo)
    (hstarting : ∀ d ∈ (e.hall (some id) todo).callers, d.place ≠ .starting)
    (hlocked : e.desk.locked = true) (hcurrent : e.desk.current = none) (f : Failure) :
    (e.fail id (.startup handler) f).Tends called served roll none todo := by
  have hunlocked := h.unlocks hstarting rfl .inr
  refine hunlocked.fails (.inr ?_)
  rw [unlock, hall_wakeFirst, Hall.wasted_wakeFirst]
  refine ⟨h.tends.tended.manned hlocked, fun huse => ?_⟩
  rcases huse with hnever | huse
  · cases hnever
  · change e.desk.current.isSome at huse
    simp [hcurrent] at huse

/-- What is done away from the desk brings nobody before the foremost. -/
theorem Away.foremost (h : Away e e') {out : Option Nat}
    (hforemost : (e.hall out todo).Foremost served id) :
    (e'.hall out todo).Foremost served id := by
  have hcallers : (e'.hall out todo).callers = (e.hall out todo).callers := by
    simp [hall, h.callers]
  have hline : (e'.hall out todo).line = (e.hall out todo).line := h.line
  exact ⟨hforemost.served, hcallers ▸ hforemost.fresh, hline ▸ hforemost.line,
    hcallers ▸ hforemost.starting⟩

/-- The desk is taken, to start the analysis server once more. -/
def manned (l : Launch) (relays : List Relay) (e : Engine) : Engine :=
  { e with
    relays
    desk := { e.desk with locked := true, launches := e.desk.launches ++ [l] } }

theorem hall_manned (l : Launch) (relays : List Relay) (out : Option Nat) (todo : List Job)
    (e : Engine) : (e.manned l relays).hall out todo =
      { e.hall out todo with locked := true, launches := (e.hall out todo).launches + 1 } := by
  simp [hall, manned, callers]

/-- A call that may start the analysis server takes the desk. -/
theorem Departed.takes (h : e.Departed called served roll id role handler todo)
    (hraised : ∀ t ∈ e.desk.line, t.signal ≠ .raised) (hcurrent : e.desk.current = none)
    (l : Launch) (relays : List Relay) :
    (e.manned l relays).Departed called served roll id role handler todo := by
  refine ⟨⟨h.tends.single, h.tends.claims, h.tends.granted, h.tends.listed, h.tends.outside, ?_,
    ?_⟩, h.call, h.claim, fun entry hentry hid => ?_⟩
  · rw [hall_manned]
    exact h.tends.tended.taken hraised hcurrent
  · rw [hall_manned]
    nofun
  · rw [hall_manned]
    exact (h.owed entry hentry hid).imp_right (.imp_left fun hfailed =>
      hfailed.mono rfl Hall.Tended.wasted_taken)

theorem launch_eq (id : Nat) (handler : Handler) (e : Engine) :
    (e.mapDesk fun d => { d with locked := true }).launch id handler =
      match (e.desk.startFailures[e.desk.launches.length]?).join with
      | some reason => (e.manned ⟨e.setup.root, false, 0, none⟩ e.relays).fail id (.startup handler)
          (.closed (.because reason))
      | none =>
        let started := e.manned ⟨e.setup.root, true, 0, some e.relays.length⟩
          (e.relays ++ [Relay.new e.setup])
        match Query.first (started.relay e.relays.length) .introduction with
        | .error f => started.fail id (.startup handler) f
        | .ok a => started.ask id e.relays.length a (.startup handler) :=
  rfl

/-- **The relay of a call introduces itself**, and the call waits for the outcome of
that, or fails at once. -/
theorem Departed.introduces (h : e.Departed called served roll id role handler todo)
    (hforemost : (e.hall (some id) todo).Foremost served id) (hlocked : e.desk.locked = true)
    (hcurrent : e.desk.current = none) (i : Nat) (a : Ask) :
    (e.ask id i a (.startup handler)).Tends called served roll none todo := by
  rcases ask_cases h.tends.single id i a (.startup handler) with
    ⟨e', f, haway, heq⟩ | ⟨e', seq, watch, outcome, haway, hwaits⟩
  · rw [heq]
    exact (h.away haway).fails_startup (haway.foremost hforemost).starting
      (haway.locked.trans hlocked) (haway.current.trans hcurrent) f
  · exact ((h.away haway).starts (haway.foremost hforemost) (haway.locked.trans hlocked)
      (haway.current.trans hcurrent) rfl rfl).away hwaits

/-- **A call takes the desk and starts the analysis server**, or fails at once. -/
theorem launches (hmanned : ∀ l relays,
      (e.manned l relays).Departed called served roll id role handler todo)
    (hforemost : (e.hall (some id) todo).Foremost served id) (hcurrent : e.desk.current = none) :
    ((e.mapDesk fun d => { d with locked := true }).launch id handler).Tends called served roll none
      todo := by
  -- whatever was launched, the call comes before all others
  have hbefore : ∀ l relays, ((e.manned l relays).hall (some id) todo).Foremost served id :=
    fun l relays => ⟨hforemost.served, hforemost.fresh, hforemost.line, hforemost.starting⟩
  have hfails : ∀ l relays f,
      ((e.manned l relays).fail id (.startup handler) f).Tends called served roll none todo :=
    fun l relays f => (hmanned l relays).fails_startup (hbefore l relays).starting rfl hcurrent f
  rw [launch_eq]
  split
  · exact hfails _ e.relays _
  · simp only []
    split
    · exact hfails _ _ _
    · exact (hmanned _ _).introduces (hbefore _ _) rfl hcurrent _ _

/-- **The foremost is served.** -/
theorem Departed.serves_foremost (h : e.Departed called served roll id role handler todo)
    (hforemost : (e.hall (some id) todo).Foremost served id) (i : Nat) :
    (e.serve id i handler).Tends called (served ++ [⟨id, i, handler, []⟩]) roll none todo :=
  (h.serves rfl rfl hforemost.served fun _ hd hawaits =>
    Hall.Foremost.before (s := ⟨id, i, handler, []⟩) hforemost hd hawaits).serve i handler

/-- **The analysis server is ready**, and the handler that started it is served. -/
theorem Departed.ready (h : e.Departed called served roll id role handler todo)
    (hforemost : (e.hall (some id) todo).Foremost served id) (hlocked : e.desk.locked = true)
    (i : Nat) :
    (e.ready id i handler).Tends called (served ++ [⟨id, i, handler, []⟩]) roll none todo := by
  unfold Engine.ready
  refine (h.unlocks hforemost.starting rfl fun _ => .inl hlocked).serves_foremost ?_ i
  rw [unlock, hall_wakeFirst]
  exact Hall.Foremost.wakeFirst ⟨hforemost.served, hforemost.fresh, hforemost.line,
    hforemost.starting⟩

end Engine

end LanguageRelay
