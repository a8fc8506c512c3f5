import LanguageRelay.Proofs.Desk.Serving
import LanguageRelay.Proofs.Desk.Documents
/-!
# The jobs of a hall

Every job leaves the hall tended, with the handler served that the job serves, if
it serves one (`tends_dispatch`); so does a cancellation (`tends_cancel`).
-/

namespace LanguageRelay

namespace Engine

variable {called : List (Nat × Handler)} {served : List Serving} {roll : List (Nat × String)}
variable {todo : List Job} {e e' : Engine} {id : Nat} {c : Call} {handler : Handler}

/-! ## Jobs that make nobody go on -/

/-- A call is woken that neither begins nor stands in line: it stays. -/
theorem Tends.stays (h : e.Tends called served roll none (.resume id :: todo))
    (hplace : ∀ c, e.call? id = some c → c.stage.place ≠ .fresh ∧ c.stage.place ≠ .inLine) :
    e.Tends called served roll none todo := by
  have hcaller : ∀ d ∈ e.callers, d.number = id → d.place ≠ .fresh ∧ d.place ≠ .inLine := by
    rintro d hd rfl
    obtain ⟨⟨n, c⟩, hx, rfl⟩ := List.mem_map.mp hd
    exact hplace c ((Table.get?_eq_some_iff h.single).mpr hx)
  refine h.drop (fun d hd hfresh heq => ?_) fun t hmem _ heq => ?_
  · exact (hcaller d hd (Job.resume.inj heq).symm).1 hfresh
  · obtain ⟨d, hd, hnumber, hinline⟩ := h.tended.ticketed t hmem
    exact (hcaller d hd.1 (hnumber.trans (Job.resume.inj heq).symm)).2 hinline

/-- A job that is for no call is done away from the desk. -/
theorem Tends.idles {job : Job} (h : e.Tends called served roll none (job :: todo))
    (hjob : ∀ id, job ≠ .resume id) : e.Tends called served roll none todo :=
  h.drop (fun _ _ _ => hjob _) fun _ _ _ => hjob _

theorem away_passOn (id seq : Nat) (e : Engine) : Away e (e.passOn id seq) := by
  unfold passOn
  split
  · rename_i next cancelled hcall
    split
    · split
      · refine away_told hcall ?_ next.place_ne.1 _ fun _ heq => (Job.resume.inj heq).symm
        exact ⟨rfl, rfl⟩
      · exact away_resume hcall next.place_ne.1
      · exact .refl e
    · exact .refl e
  · exact .refl e

theorem away_expire (id seq : Nat) (e : Engine) : Away e (e.expire id seq) := by
  unfold expire
  split
  · rename_i next cancelled hcall
    split
    · refine away_told hcall ?_ next.place_ne.1 _ fun _ heq => (Job.resume.inj heq).symm
      exact ⟨rfl, rfl⟩
    · exact .refl e
  · exact .refl e

theorem away_partEnded (whole : Nat) (outcome : Except Failure Unit) (e : Engine) :
    Away e (e.partEnded whole outcome) := by
  unfold partEnded
  split
  · rename_i parts left cancelled hcall
    split
    · refine away_told hcall ?_ nofun _ fun _ heq => (Job.resume.inj heq).symm
      exact ⟨rfl, rfl⟩
    · split
      · refine away_told hcall ?_ nofun _ fun _ heq => (Job.resume.inj heq).symm
        exact ⟨rfl, rfl⟩
      · exact away_amend hcall ⟨rfl, rfl⟩
  · exact .refl e

theorem away_checkEnded (i : Nat) (outcome : Except Failure Unit) (e : Engine) :
    Away e (e.checkEnded i outcome) := by
  unfold checkEnded
  split
  · exact .refl e
  · exact .refl e
  · exact .of_same rfl rfl ⟨rfl, rfl, rfl, rfl⟩ rfl rfl

theorem Tends.fire (h : e.Tends called served roll none todo) (i : Nat) (uri : String)
    (timer : Nat) : (e.fire i uri timer).Tends called served roll none todo := by
  unfold Engine.fire
  split
  · simpa [Stage.handler?] using (h.operate ‹_›).spawn (.timer i) (.check i uri)
  · exact h.operate ‹_›

/-! ## A call runs for the first time -/

theorem handle_of_ne (hne : handler ≠ .shutdown) (id : Nat) (e : Engine) :
    e.handle id handler =
      match e.desk.current with
      | some i => e.serve id i handler
      | none =>
        if e.deskFree then e.takeDesk id handler
        else (e.joinLine id).await id (.queued handler) := by
  cases handler <;> first | rfl | exact absurd rfl hne

theorem seen_handle (hne : handler ≠ .shutdown) :
    (Stage.created (.handle handler)).place = .fresh ∧
      (Stage.created (.handle handler)).handler? = some handler := by
  cases handler <;> first | exact ⟨rfl, rfl⟩ | exact absurd rfl hne

theorem serving?_created (hne : handler ≠ .shutdown) (hcall : e.call? id = some c)
    (hstage : c.stage = .created (.handle handler)) : e.serving? (.resume id) =
      if c.cancelled then none
      else e.desk.current.map fun i => ⟨id, i, handler,
        (e.desk.line.filter fun t => t.signal ≠ .cancelled).map Ticket.call⟩ := by
  simp only [serving?, hcall, Option.bind_some, hstage]

/-- **A handler that finds the desk free may take it**: it comes before all others,
whatever is launched. -/
theorem Tends.boards_fresh (h : e.Tends called served roll none (.resume id :: todo))
    (hcall : e.call? id = some c) (hstage : c.stage = .created (.handle handler))
    (hne : handler ≠ .shutdown) (hcurrent : e.desk.current = none) (hfree : e.deskFree = true) :
    (∀ l relays, (e.manned l relays).Departed called served roll id c.role handler todo) ∧
      (e.hall (some id) todo).Foremost served id := by
  obtain ⟨hplace, hhandler⟩ : c.stage.place = .fresh ∧ c.stage.handler? = some handler :=
    hstage ▸ seen_handle hne
  have hinline : c.stage.place ≠ .inLine := by simp [hplace]
  have hleaves := h.departs hcall hhandler hinline
  obtain ⟨hserved, hfresh, -⟩ := h.tended.fresh_departs rfl (mem_hall hcall) rfl hplace
  have hhall := hall_leaveLine id todo e
  rw [leaveLine_of_ticketless (h.ticketless hcall hinline)] at hhall
  have hcallers := congrArg Hall.callers hhall
  change _ = ((e.hall none (.resume id :: todo)).without id).callers at hcallers
  rw [← hcallers] at hfresh
  obtain ⟨hlocked, hcancelled⟩ : e.desk.locked = false ∧
      ∀ t ∈ e.desk.line, t.signal = .cancelled := by simpa [deskFree] using hfree
  refine ⟨hleaves.takes (fun t hmem => by simp [hcancelled t hmem]) hcurrent,
    hserved, hfresh, fun t hmem hsignal => ?_, fun d hd hstarting => ?_⟩
  · exact absurd (hcancelled t hmem) hsignal
  · have hbusy : e.desk.locked = true := (hleaves.tends.tended.busy d hd hstarting).1
    simp [hlocked] at hbusy

/-- **A handler begins**: it is served at once, takes the desk or stands in
line. -/
theorem Tends.handles (h : e.Tends called served roll none (.resume id :: todo))
    (hcall : e.call? id = some c) (hstage : c.stage = .created (.handle handler))
    (hne : handler ≠ .shutdown) :
    (e.resume id).Tends called (served ++ (e.serving? (.resume id)).toList) roll none todo := by
  obtain ⟨hplace, hhandler⟩ : c.stage.place = .fresh ∧ c.stage.handler? = some handler :=
    hstage ▸ seen_handle hne
  have hinline : c.stage.place ≠ .inLine := by simp [hplace]
  have hleaves := h.departs hcall hhandler hinline
  have htended := hleaves.tends.tended
  obtain ⟨hserved, hfresh, hbegun⟩ := h.tended.fresh_departs rfl
    (mem_hall hcall) rfl hplace
  have hhall := hall_leaveLine id todo e
  rw [leaveLine_of_ticketless (h.ticketless hcall hinline)] at hhall
  have hcallers := congrArg Hall.callers hhall
  change _ = ((e.hall none (.resume id :: todo)).without id).callers at hcallers
  rw [← hcallers] at hfresh hbegun
  rw [serving?_created hne hcall hstage]
  simp only [resume, hcall, hstage]
  split
  · simpa using hleaves.fails (.inl rfl)
  · rw [begin, handle_of_ne hne]
    cases hcurrent : e.desk.current with
    | some i =>
      refine (hleaves.serves rfl rfl hserved fun d hd hawaits => ?_).serve i handler
      unfold Hall.Awaits at hawaits
      split at hawaits
      · exact .inl (hfresh d hd ‹_›)
      · -- nobody starts what is in use
        have hnone : e.desk.current = none := (htended.busy d hd ‹_›).2
        simp [hnone] at hcurrent
      · obtain ⟨t, hmem, hnumber, hsignal⟩ := hawaits
        refine .inr ⟨hbegun d hd (.inl ‹_›), List.mem_map.mpr ⟨t, ?_, hnumber⟩⟩
        exact List.mem_filter.mpr ⟨hmem, by simpa using hsignal⟩
      · exact hawaits.elim
    | none =>
      simp only [Option.map_none, Option.toList_none, List.append_nil]
      split
      · rename_i hfree
        obtain ⟨htaken, hforemost⟩ := h.boards_fresh hcall hstage hne hcurrent hfree
        unfold takeDesk
        simp only [hcurrent]
        exact launches htaken hforemost hcurrent
      · rename_i hfree
        refine hleaves.queues hserved hfresh hbegun ?_
        by_contra hnot
        obtain ⟨hlocked, hline⟩ := not_or.mp hnot
        simp [deskFree, not_not.mp hline] at hfree
        exact hlocked hfree

/-! ## A call in line is woken -/

/-- A call has one ticket. -/
theorem Tends.ticket_unique (h : e.Tends called served roll none todo) {t u : Ticket}
    (ht : t ∈ e.desk.line) (hu : u ∈ e.desk.line) (hcall : t.call = u.call) : t = u :=
  List.inj_on_of_nodup_map (h.tended.ascending.imp fun hlt => (Nat.ne_of_lt hlt)) ht hu hcall

/-- A call whose turn it is comes before all others. -/
theorem Tends.foremost_turn (h : e.Tends called served roll none (.resume id :: todo))
    {t : Ticket} (hmem : t ∈ e.desk.line) (hticket : t.call = id) (hsignal : t.signal = .raised) :
    ((e.leaveLine id).hall (some id) todo).Foremost served id := by
  rw [hall_leaveLine]
  have hfirst := h.tended.raised_departs hmem hticket hsignal
  exact ⟨hfirst.served, hfirst.fresh, hfirst.line, hfirst.starting⟩

/-- So it may take the desk, whatever is launched. -/
theorem Tends.boards_turn (h : e.Tends called served roll none (.resume id :: todo))
    (hcall : e.call? id = some c) (hhandler : c.stage.handler? = some handler) {t : Ticket}
    (hmem : t ∈ e.desk.line) (hticket : t.call = id) (hsignal : t.signal = .raised)
    (hcurrent : e.desk.current = none) (l : Launch) (relays : List Relay) :
    ((e.leaveLine id).manned l relays).Departed called served roll id c.role handler todo := by
  have hraised : ∀ u ∈ (e.leaveLine id).desk.line, u.signal ≠ .raised :=
    h.tended.unraised_of_raised hmem hticket hsignal
  refine h.leaves hcall hhandler rfl rfl (fun _ hfailed => ?_) ?_ ?_
  · rw [hall_manned]
    exact hfailed.mono rfl Hall.Tended.wasted_taken
  · rw [hall_manned]
    exact h.departs_line.taken hraised hcurrent
  · rw [hall_manned]
    nofun

/-- **A call whose turn it is** takes the desk, or is served if the analysis
server is in use already. -/
theorem Tends.turns (h : e.Tends called served roll none (.resume id :: todo))
    (hcall : e.call? id = some c) (hhandler : c.stage.handler? = some handler) {t : Ticket}
    (hmem : t ∈ e.desk.line) (hticket : t.call = id) (hsignal : t.signal = .raised) :
    ((e.leaveLine id).takeDesk id handler).Tends called
      (served ++ (e.desk.current.map fun i => ⟨id, i, handler, []⟩).toList) roll none todo := by
  have htended := h.departs_line
  have hforemost := h.foremost_turn hmem hticket hsignal
  unfold takeDesk
  cases hcurrent : e.desk.current with
  | some i =>
    have hcurrent' : (e.leaveLine id).desk.current = some i := hcurrent
    simp only [hcurrent']
    have hleaves : ((e.leaveLine id).mapDesk fun d => { d with locked := true }).unlock.Departed
        called served roll id c.role handler todo :=
      h.leaves_free hcall hhandler rfl rfl
        (fun _ hfailed => hfailed.mono rfl fun hwasted => Hall.Tended.wasted_left hwasted .inr)
        (htended.left hforemost.starting .inr) rfl
    refine hleaves.serves_foremost ?_ i
    rw [unlock, hall_wakeFirst]
    exact Hall.Foremost.wakeFirst ⟨hforemost.served, hforemost.fresh, hforemost.line,
      hforemost.starting⟩
  | none =>
    have hcurrent' : (e.leaveLine id).desk.current = none := hcurrent
    simp only [hcurrent', Option.map_none, Option.toList_none, List.append_nil]
    exact launches (h.boards_turn hcall hhandler hmem hticket hsignal hcurrent) hforemost hcurrent'

/-- **A call that was cancelled leaves the line**, and whoever is next is woken if
nobody is at the desk. -/
theorem Tends.quits (h : e.Tends called served roll none (.resume id :: todo))
    (hcall : e.call? id = some c) (hhandler : c.stage.handler? = some handler) :
    ((if (e.leaveLine id).desk.locked then e.leaveLine id else (e.leaveLine id).wakeFirst).finish id
      (.error .cancelled)).Tends called served roll none todo := by
  have htended := h.departs_line
  split
  · rename_i hlocked
    have hleaves : (e.leaveLine id).Departed called served roll id c.role handler todo :=
      h.leaves hcall hhandler rfl rfl (fun _ hfailed => hfailed) htended fun hfree =>
        absurd (hlocked.symm.trans hfree) (by simp)
    exact hleaves.fails (.inl rfl)
  · rename_i hfree
    have hleaves : (e.leaveLine id).wakeFirst.Departed called served roll id c.role handler todo :=
      h.leaves_free hcall hhandler rfl rfl (fun _ hfailed => hfailed) htended
        (Bool.eq_false_of_not_eq_true hfree)
    exact hleaves.fails (.inl rfl)

/-- **A call that stands in line is woken**: it gives up if it was cancelled, takes
the desk if it is its turn, and else was woken for nothing. -/
theorem Tends.resumeQueued_cases (h : e.Tends called served roll none (.resume id :: todo))
    (hcall : e.call? id = some c) (hstage : c.stage = .queued handler) :
    (e.resume id = (if (e.leaveLine id).desk.locked then e.leaveLine id
        else (e.leaveLine id).wakeFirst).finish id (.error .cancelled) ∧
      e.serving? (.resume id) = none) ∨
    ((∃ t ∈ e.desk.line, t.call = id ∧ t.signal = .raised) ∧
      e.resume id = (e.leaveLine id).takeDesk id handler ∧
      e.serving? (.resume id) = e.desk.current.map fun i => ⟨id, i, handler, []⟩) ∨
    ((∀ t ∈ e.desk.line, t.call = id → t.signal = .pending) ∧ e.resume id = e ∧
      e.serving? (.resume id) = none) := by
  have hplace : c.stage.place = .inLine := hstage ▸ rfl
  obtain ⟨own, hown, hcallOwn⟩ := h.tended.standing _ (mem_hall hcall) hplace
  change own ∈ e.desk.line at hown
  change own.call = id at hcallOwn
  have hunique : ∀ t ∈ e.desk.line, t.call = id → t = own := fun t ht hid =>
    h.ticket_unique ht hown (hid.trans hcallOwn.symm)
  have hfind : e.desk.line.find? (fun t => t.call = id) = some own := by
    cases hfind : e.desk.line.find? (fun t => t.call = id) with
    | none => simpa [hcallOwn] using List.find?_eq_none.mp hfind own hown
    | some t =>
      rw [hunique t (List.mem_of_find?_eq_some hfind) (by simpa using List.find?_some hfind)]
  have hany : (e.desk.line.any fun t => t.call == id && t.signal == .raised) =
      (own.signal == .raised) := by
    rw [Bool.eq_iff_iff, List.any_eq_true]
    constructor
    · rintro ⟨t, ht, hraised⟩
      obtain ⟨hid, hraised⟩ : t.call = id ∧ t.signal = .raised := by simpa using hraised
      rw [← hunique t ht hid, hraised]
      rfl
    · exact fun hraised => ⟨own, hown, by simpa [hcallOwn] using hraised⟩
  simp only [serving?, resume, hcall, Option.bind_some, hstage, hany, resumeQueued, hfind]
  by_cases hcancelled : c.cancelled = true ∨ own.signal = .cancelled
  · have hnone : (!c.cancelled && own.signal == .raised) = false := by
      rcases hcancelled with hc | hc <;> simp [hc]
    have hquits : (c.cancelled || own.signal == .cancelled) = true := by
      rcases hcancelled with hc | hc <;> simp [hc]
    simp only [hnone, hquits, if_true]
    exact .inl ⟨rfl, rfl⟩
  · obtain ⟨hkept, hsignal⟩ := not_or.mp hcancelled
    simp only [hkept, hsignal, Bool.not_false, Bool.true_and, Bool.false_or, beq_iff_eq, if_false]
    by_cases hraised : own.signal = .raised
    · simp only [hraised, if_true]
      exact .inr (.inl ⟨⟨own, hown, hcallOwn, hraised⟩, rfl, trivial⟩)
    · simp only [hraised, if_false]
      refine .inr (.inr ⟨fun t ht hid => ?_, trivial, trivial⟩)
      rw [hunique t ht hid]
      cases hcase : own.signal with
      | pending => rfl
      | raised => exact absurd hcase hraised
      | cancelled => exact absurd hcase hsignal

/-- So it leaves the hall tended. -/
theorem Tends.resumesQueued (h : e.Tends called served roll none (.resume id :: todo))
    (hcall : e.call? id = some c) (hstage : c.stage = .queued handler) :
    (e.resume id).Tends called (served ++ (e.serving? (.resume id)).toList) roll none todo := by
  have hplace : c.stage.place = .inLine := hstage ▸ rfl
  have hhandler : c.stage.handler? = some handler := hstage ▸ rfl
  rcases h.resumeQueued_cases hcall hstage with
    ⟨heq, hnone⟩ | ⟨⟨t, hmem, hticket, hraised⟩, heq, hserving⟩ | ⟨hpending, heq, hnone⟩
  · rw [heq, hnone, Option.toList_none, List.append_nil]
    exact h.quits hcall hhandler
  · rw [heq, hserving]
    exact h.turns hcall hhandler hmem hticket hraised
  · rw [heq, hnone, Option.toList_none, List.append_nil]
    refine h.drop (fun d hd hfresh heq => ?_) fun t ht hwoken heq =>
      hwoken (hpending t ht (Job.resume.inj heq).symm)
    rw [eq_of_number h.single hd (mem_callers hcall) (Job.resume.inj heq).symm] at hfresh
    cases hplace.symm.trans hfresh

/-! ## A call that waits for a command is woken -/

section Asking

variable {i seq : Nat} {a : Ask} {watch : Watch} {outcome : Option (Except Failure Json)}
variable {next : Continuation}

theorem away_giveUp (hcall : e.call? id = some c)
    (hstage : c.stage = .asking i seq a watch outcome next) (why : Ending) :
    Away e (e.giveUp id i seq a why next) := by
  have hset : Away e (e.mapRelay i (Relay.withdraw seq)) := away_setRelay i _ e
  have hcall' : (e.mapRelay i (Relay.withdraw seq)).call? id = some c := hcall
  refine (hset.trans (away_await hcall' ?_)).trans (away_post (.passOn id seq) nofun)
  rw [hstage]
  exact ⟨rfl, rfl⟩

/-- **A call that waits for a command is woken**: it waits on, or goes on with an
outcome; it has started the analysis server if that is a good one. -/
theorem resumeAsking_cases (hcall : e.call? id = some c)
    (hstage : c.stage = .asking i seq a watch outcome next) :
    (Away e (e.resume id) ∧ KeepsDocuments e (e.resume id) ∧ c.started? = none) ∨
      ∃ e' o, Away e e' ∧ KeepsDocuments e e' ∧ e.resume id = e'.proceed id i next o ∧
        c.started? = next.handler?.bind fun handler => o.toOption.map fun _ => (i, handler) := by
  have hleave := away_leave id i seq e
  have hkeep := keepsDocuments_leave id i seq e
  have hgiveUp := away_giveUp hcall hstage
  obtain ⟨role, stage, cancelled⟩ := c
  obtain rfl : stage = _ := hstage
  simp only [resume, hcall, resumeAsking]
  -- a window that is over, or a cancellation, does not take a good outcome away
  have hwindowed : ∀ signal why, (cancelled || signal != .pending) = true →
      (Away e (e.wakeWindowed id i seq a outcome why next) ∧
        KeepsDocuments e (e.wakeWindowed id i seq a outcome why next) ∧
        Call.started? ⟨role, .asking i seq a (.windowed signal) outcome next, cancelled⟩ = none) ∨
      ∃ e' o, Away e e' ∧ KeepsDocuments e e' ∧
        e.wakeWindowed id i seq a outcome why next = e'.proceed id i next o ∧
        Call.started? ⟨role, .asking i seq a (.windowed signal) outcome next, cancelled⟩ =
          next.handler?.bind fun handler => o.toOption.map fun _ => (i, handler) := by
    intro signal why hwoken
    cases outcome with
    | none => exact .inl ⟨hgiveUp why, keepsDocuments_giveUp _ _ _ _ _ _ _, rfl⟩
    | some o =>
      refine .inr ⟨_, o, hleave, hkeep, rfl, ?_⟩
      cases next with
      | answer after => cases o <;> rfl
      | startup handler =>
        cases o with
        | error f => rfl
        | ok body =>
          simp only [Call.started?, hwoken, if_true]
          rfl
  cases watch with
  | unbounded =>
    cases cancelled with
    | true =>
      refine .inr ⟨_, .error .cancelled, hleave, hkeep, rfl, ?_⟩
      cases outcome with
      | none => cases next <;> rfl
      | some o => cases o <;> cases next <;> rfl
    | false =>
      cases outcome with
      | none => exact .inl ⟨.refl e, .refl e, rfl⟩
      | some o =>
        refine .inr ⟨_, o, hleave, hkeep, rfl, ?_⟩
        cases o <;> cases next <;> rfl
  | windowed signal =>
    cases cancelled with
    | true => exact hwindowed signal .cancelled rfl
    | false =>
      cases signal with
      | cancelled => exact hwindowed .cancelled .cancelled rfl
      | raised => exact hwindowed .raised .timedOut rfl
      | pending =>
        refine .inl ⟨.refl e, .refl e, ?_⟩
        cases outcome with
        | none => rfl
        | some o => cases o <;> cases next <;> rfl
  | ending why =>
    refine .inr ?_
    simp only [endAsking]
    split
    · exact ⟨_, .error .cancelled, hleave, hkeep, rfl, by cases next <;> rfl⟩
    · refine ⟨_, .error (.timedOut a.command seq a.shownWindow), hleave.trans ?_, hkeep.trans ?_,
        rfl, by cases next <;> rfl⟩
      · exact .of_same rfl rfl ⟨rfl, rfl, rfl, rfl⟩ rfl rfl
      · exact .of_relays rfl rfl

theorem serving?_asking (hcall : e.call? id = some c)
    (hstage : c.stage = .asking i seq a watch outcome next) :
    e.serving? (.resume id) = c.started?.map fun r => ⟨id, r.1, r.2, []⟩ := by
  simp only [serving?, hcall, Option.bind_some, hstage]

/-- A call that waits for a command goes on. -/
theorem Tends.resumesAsking (h : e.Tends called served roll none (.resume id :: todo))
    (hcall : e.call? id = some c) (hstage : c.stage = .asking i seq a watch outcome next) :
    (e.resume id).Tends called (served ++ (e.serving? (.resume id)).toList) roll none todo := by
  have hplace : c.stage.place = next.place := hstage ▸ rfl
  rw [serving?_asking hcall hstage]
  rcases resumeAsking_cases hcall hstage with
    ⟨haway, -, hnone⟩ | ⟨e', o, haway, -, heq, hstarted⟩
  · have hstays : e.Tends called served roll none todo := h.stays fun d hd => by
      obtain rfl : c = d := Option.some.inj (hcall.symm.trans hd)
      exact hplace ▸ next.place_ne
    simpa [hnone] using hstays.away haway
  · rw [heq, hstarted]
    cases next with
    | answer after =>
      have htends := (h.departs_beyond hcall hplace).away haway
      simp only [Continuation.handler?, Option.bind_none, Option.map_none, Option.toList_none,
        List.append_nil, proceed]
      split
      · exact htends.finish _
      · exact htends.ask i _ _
    | startup handler =>
      have hinline : c.stage.place ≠ .inLine := by rw [hplace]; nofun
      have hhandler : c.stage.handler? = some handler := hstage ▸ rfl
      have hleaves := (h.departs hcall hhandler hinline).away haway
      have hforemost := foremost_leaveLine (h.tended.starting_departs
        (mem_hall hcall) rfl hplace)
      rw [leaveLine_of_ticketless (h.ticketless hcall hinline)] at hforemost
      obtain ⟨hlocked, hcurrent⟩ := h.tended.busy _ (mem_hall hcall) hplace
      replace hlocked : e'.desk.locked = true := haway.locked.trans hlocked
      replace hcurrent : e'.desk.current = none := haway.current.trans hcurrent
      cases o with
      | ok body => exact hleaves.ready (haway.foremost hforemost) hlocked i
      | error f =>
        have htends : (e'.fail id (.startup handler) f).Tends called served roll none todo :=
          hleaves.fails_startup (haway.foremost hforemost).starting hlocked hcurrent f
        change Tends called (served ++ []) roll none todo _
        rwa [List.append_nil]

end Asking

/-! ## Every job -/

/-- Nobody is served that asks nothing of the desk. -/
theorem serving?_of_beyond (hcall : e.call? id = some c) (hplace : c.stage.place = .beyond) :
    e.serving? (.resume id) = none := by
  obtain ⟨role, stage, cancelled⟩ := c
  simp only [serving?, hcall, Option.bind_some]
  cases stage with
  | created work =>
    cases work with
    | handle handler => cases handler <;> first | rfl | cases hplace
    | _ => rfl
  | asking i seq a watch outcome next =>
    cases next with
    | answer after => simp [Call.started?]
    | startup handler => cases hplace
  | queued handler => cases hplace
  | _ => rfl

/-- What running on can come to for a call that asks nothing of the desk, and does
not wait for a command. -/
inductive RunsBeyond (id : Nat) (e : Engine) : Engine → Prop where
  | waits : RunsBeyond id e e
  | ends (outcome : Except Failure Answer) : RunsBeyond id e (e.finish id outcome)
  | letGo : RunsBeyond id e (e.letGo id)
  | query (i : Nat) (q : Query) : RunsBeyond id e (e.query id i q)
  | check (i : Nat) (uri : String) : RunsBeyond id e (e.check id i uri)
  | checkAll (i : Nat) : RunsBeyond id e (e.checkAll id i)

/-- A call that is woken begins with a handler, stands in line, waits for a command,
or asks nothing of the desk. -/
theorem resume_cases (hcall : e.call? id = some c) :
    (∃ handler, handler ≠ .shutdown ∧ c.stage = .created (.handle handler)) ∨
    (∃ handler, c.stage = .queued handler) ∨
    (∃ i seq a watch outcome next, c.stage = .asking i seq a watch outcome next) ∨
    (c.stage.place = .beyond ∧ RunsBeyond id e (e.resume id)) := by
  have hbegins : ∀ work, c.stage = .created work → RunsBeyond id e (e.begin id work) →
      RunsBeyond id e (e.resume id) := by
    intro work hstage hbegun
    simp only [resume, hcall, hstage]
    split
    · exact .ends _
    · exact hbegun
  have hwaits : ∀ e', (e' = e ∨ ∃ o, e' = e.finish id (done o)) →
      RunsBeyond id e (if c.cancelled then e.finish id (.error .cancelled) else e') := by
    intro e' hthen
    split
    · exact .ends _
    · rcases hthen with rfl | ⟨o, rfl⟩
      · exact .waits
      · exact .ends _
  cases hstage : c.stage with
  | created work =>
    cases work with
    | handle handler =>
      by_cases hne : handler = .shutdown
      · subst hne
        exact .inr (.inr (.inr ⟨rfl, hbegins _ hstage .letGo⟩))
      · exact .inl ⟨handler, hne, rfl⟩
    | query i q => exact .inr (.inr (.inr ⟨rfl, hbegins _ hstage (.query i q)⟩))
    | check i uri => exact .inr (.inr (.inr ⟨rfl, hbegins _ hstage (.check i uri)⟩))
    | checkAll i => exact .inr (.inr (.inr ⟨rfl, hbegins _ hstage (.checkAll i)⟩))
  | asking i seq a watch outcome next =>
    exact .inr (.inr (.inl ⟨i, seq, a, watch, outcome, next, rfl⟩))
  | checking i outcome =>
    refine .inr (.inr (.inr ⟨rfl, ?_⟩))
    simp only [resume, hcall, hstage]
    refine hwaits _ ?_
    cases outcome with
    | some o => exact .inr ⟨o, rfl⟩
    | none => exact .inl rfl
  | gathering parts left outcome cancelled =>
    refine .inr (.inr (.inr ⟨rfl, ?_⟩))
    simp only [resume, hcall, hstage]
    refine hwaits _ ?_
    cases outcome with
    | some o => exact .inr ⟨o, rfl⟩
    | none => exact .inl rfl
  | queued handler => exact .inr (.inl ⟨handler, rfl⟩)

/-- A call that asks nothing of the desk goes on. -/
theorem Tends.runsBeyond (h : e.Tends called served roll none (.resume id :: todo))
    (hcall : e.call? id = some c) (hplace : c.stage.place = .beyond) (hruns : RunsBeyond id e e') :
    e'.Tends called served roll none todo := by
  have hgone := h.departs_beyond hcall hplace
  cases hruns with
  | waits =>
    refine h.stays fun d hd => ?_
    obtain rfl : c = d := Option.some.inj (hcall.symm.trans hd)
    simp [hplace]
  | ends outcome => exact hgone.finish outcome
  | letGo => exact hgone.letGo
  | query i q => exact hgone.query i q
  | check i uri => exact hgone.check i uri
  | checkAll i => exact hgone.checkAll i

/-- **A call runs on.** -/
theorem Tends.resumes (h : e.Tends called served roll none (.resume id :: todo)) :
    (e.resume id).Tends called (served ++ (e.serving? (.resume id)).toList) roll none todo := by
  cases hcall : e.call? id with
  | none =>
    have hnone : e.serving? (.resume id) = none := by simp [serving?, hcall]
    rw [hnone, Option.toList_none, List.append_nil, resume, hcall]
    exact h.stays fun c hc => by simp [hcall] at hc
  | some c =>
    rcases resume_cases hcall with
      ⟨handler, hne, hstage⟩ | ⟨handler, hstage⟩ | ⟨i, seq, a, watch, outcome, next, hstage⟩ |
        ⟨hplace, hruns⟩
    · exact h.handles hcall hstage hne
    · exact h.resumesQueued hcall hstage
    · exact h.resumesAsking hcall hstage
    · rw [serving?_of_beyond hcall hplace, Option.toList_none, List.append_nil]
      exact h.runsBeyond hcall hplace hruns

/-- **Every job leaves the hall tended**, with the handler it serves, if any. -/
theorem tends_dispatch {job : Job} (h : e.Tends called served roll none (job :: todo)) :
    (e.dispatch job).Tends called (served ++ (e.serving? job).toList) roll none todo := by
  have hunserved : ∀ {e'}, Tends called served roll none todo e' →
      Tends called (served ++ []) roll none todo e' := by
    simp
  cases job with
  | resume id => exact h.resumes
  | passOn id seq => exact hunserved ((h.idles nofun).away (away_passOn id seq e))
  | expire id seq => exact hunserved ((h.idles nofun).away (away_expire id seq e))
  | fire i uri timer => exact hunserved ((h.idles nofun).fire i uri timer)
  | partEnded whole outcome =>
    exact hunserved ((h.idles nofun).away (away_partEnded whole outcome e))
  | checkEnded i outcome => exact hunserved ((h.idles nofun).away (away_checkEnded i outcome e))

/-! ## A cancellation -/

/-- The tickets of a call are cancelled, and the call goes on to leave the line. -/
def cancelTicket (id : Nat) (e : Engine) : Engine :=
  (e.mapDesk fun d =>
    { d with
      line := d.line.map fun t =>
        if t.call = id then { t with signal := .cancelled } else t }).post (.resume id)

/-- A call that is cancelled gives up its place in line, or what it waits for
elsewhere. -/
theorem cancelSimple_cases (id : Nat) (e : Engine) : Away e (e.cancelSimple id) ∨
    ((∃ t ∈ e.desk.line, t.call = id) ∧ e.cancelSimple id = e.cancelTicket id) := by
  unfold cancelSimple
  split
  · exact .inl (.refl e)
  · rename_i c hcall
    have hset : ∀ i (f : Relay → Relay), Away e (e.mapRelay i f) := fun i f =>
      away_setRelay i _ e
    have hcall' : ∀ i (f : Relay → Relay), (e.mapRelay i f).call? id = some c := fun _ _ => hcall
    split
    · rename_i i seq a next hstage
      refine .inl ((hset i _).trans (away_told (hcall' i _) ?_ ?_ _ fun _ heq =>
        (Job.resume.inj heq).symm))
      · rw [hstage]
        exact ⟨rfl, rfl⟩
      · rw [hstage]
        exact next.place_ne.1
    · rename_i next hstage
      refine .inl (away_told hcall ?_ ?_ _ fun _ heq => (Job.resume.inj heq).symm)
      · rw [hstage]
        exact ⟨rfl, rfl⟩
      · rw [hstage]
        exact next.place_ne.1
    · rename_i i hstage
      refine .inl ((hset i _).trans (away_told (hcall' i _) ?_ ?_ _ fun _ heq =>
        (Job.resume.inj heq).symm))
      · rw [hstage]
        exact ⟨rfl, rfl⟩
      · rw [hstage]
        nofun
    · split
      · rename_i hpending
        obtain ⟨t, hmem, ht⟩ := List.any_eq_true.mp hpending
        exact .inr ⟨⟨t, hmem, by simpa using (Bool.and_eq_true_iff.mp ht).1⟩, rfl⟩
      · exact .inl (away_markCancelled id e)
    · exact .inl (away_markCancelled id e)

/-- Cancelling a call moves nobody. -/
theorem callers_cancelSimple (id : Nat) (e : Engine) : (e.cancelSimple id).callers = e.callers := by
  rcases cancelSimple_cases id e with haway | ⟨-, heq⟩
  · exact haway.callers
  · rw [heq]
    rfl

/-- **A call that is not made of others is cancelled.** -/
theorem Tends.cancelSimple (h : e.Tends called served roll none todo) (id : Nat) :
    (e.cancelSimple id).Tends called served roll none todo := by
  rcases cancelSimple_cases id e with haway | ⟨hstands, heq⟩
  · exact h.away haway
  · rw [heq]
    have hhall : (e.cancelTicket id).hall none todo = { e.hall none todo with
        line := (e.hall none todo).line.map fun t =>
          if t.call = id then { t with signal := .cancelled } else t
        jobs := (e.hall none todo).jobs ++ [.resume id] } := by
      simp [hall, cancelTicket, mapDesk, post, Agenda.post, callers]
    refine ⟨h.single, h.claims, h.granted, h.listed, by simp, ?_, ?_⟩
    · rw [hhall]
      exact h.tended.cancelled hstands
    · rw [hhall]
      intro hfree t ht hsignal
      have ht : t ∈ (e.desk.line.map fun t =>
          if t.call = id then { t with signal := Signal.cancelled } else t).head? := ht
      rw [List.head?_map] at ht
      obtain ⟨u, hu, rfl⟩ := Option.map_eq_some_iff.mp ht
      split at hsignal
      · cases hsignal
      · exact h.vacant hfree u hu hsignal

/-- **A cancellation leaves the hall tended.** -/
theorem tends_cancel (h : e.Tends called served roll none todo) (id : Nat) :
    (e.cancel id).Tends called served roll none todo := by
  unfold cancel
  split
  · rename_i parts left _ _ hcall
    have hparts : ∀ (running : List Nat) (e : Engine), e.Tends called served roll none todo →
        (running.foldl (fun e p => e.cancelSimple p) e).Tends called served roll none todo ∧
          (running.foldl (fun e p => e.cancelSimple p) e).callers = e.callers := by
      intro running
      induction running with
      | nil => exact fun e h => ⟨h, rfl⟩
      | cons p rest ih =>
        intro e h
        obtain ⟨hrest, hcallers⟩ := ih _ (h.cancelSimple p)
        exact ⟨hrest, hcallers.trans (callers_cancelSimple p e)⟩
    simp only []
    split
    · exact h.away (away_markCancelled id e)
    · obtain ⟨hcancelled, hcallers⟩ := hparts (parts.filter fun p => (e.call? p).isSome) e h
      refine hcancelled.away (away_update fun c hc => ⟨rfl, ?_⟩)
      -- the whole is where it was while its parts are cancelled
      have hmem := hcallers ▸ mem_callers hc
      have heq := eq_of_number h.single hmem (mem_callers hcall) rfl
      exact ⟨(congrArg Caller.place heq).symm, (congrArg Caller.handler? heq).symm⟩
  · exact h.cancelSimple id

end Engine

end LanguageRelay
