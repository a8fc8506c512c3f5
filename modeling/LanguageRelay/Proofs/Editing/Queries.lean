import LanguageRelay.Proofs.Desk.Documents
import LanguageRelay.Proofs.Editing.Accounts
import LanguageRelay.Proofs.Editing.Window
import LanguageRelay.Proofs.Engine.Correlation
/-!
# What becomes of a query

A shift concerns one call at most. To a call that puts a query it does nothing that
matters, or the call writes a command, or it ends (`turns_shift`); nothing else is
taken from its client (`ended_shift`). Between two deeds the documents stay as
they are (`onward_shifts`), so **a document changes only by a deed that opens, changes
or closes it** (`session?_work`).

A command is answered by a deed: the response to it comes in
(`heard_of_answered`).
-/

namespace LanguageRelay

namespace Relay

variable {r : Relay} {response : Service.Response} {seq : Nat} {body : Json}

/-- A response answers the command it names, and brings its body if it says that the
command succeeded. -/
theorem answered_resolve (hcollected : r.outbox = [])
    (hanswered : .answered seq (.ok body) ∈ (r.resolve response).outbox) :
    response.requestSeq = seq ∧ response.success = true ∧ response.body = body := by
  unfold resolve at hanswered
  cases hfound : r.pendingFor? response.requestSeq with
  | none => simp [hfound, log, emit, hcollected] at hanswered
  | some p =>
    have hseq : (p.seq : Int) = response.requestSeq := by
      simpa using List.find?_some hfound
    simp only [hfound] at hanswered
    split at hanswered
    · simp [unlist, hcollected] at hanswered
    · simp only [emit, unlist, hcollected, List.nil_append, List.mem_singleton,
        Effect.answered.injEq, Engine.outcomeOf_eq] at hanswered
      obtain ⟨rfl, houtcome⟩ := hanswered
      split at houtcome
      · rename_i hsuccess
        exact ⟨hseq.symm, hsuccess, (Except.ok.inj houtcome).symm⟩
      · cases houtcome

end Relay

/-- The call still puts its query, or waits for the response to the same command; if
it has had one, it had it before. -/
inductive Call.Persists (c : Call) : Call → Prop
  | stage (cancelled : Bool) : Persists c { c with cancelled }
  | asking {seq ask watch outcome next} (watch' : Watch) (outcome' : Option (Except Failure Json))
      (cancelled : Bool) (hstage : c.stage = .asking 0 seq ask watch outcome next)
      (hheard : ∀ body, outcome' = some (.ok body) → outcome = some (.ok body)) :
      Persists c ⟨c.role, .asking 0 seq ask watch' outcome' next, cancelled⟩

namespace Engine

/-- The document that a deed opens, changes or closes. -/
def Deed.edited? : Deed → Option String
  | opened uri _ _ _ | changed uri _ _ | closed uri => some uri
  | _ => none

/-- What a shift does to a call that puts a query. -/
inductive Turns (id : Nat) (c : Call) (e e' : Engine) : Prop
  | kept (c' : Call) (hcall : e'.call? id = some c') (hpersists : c.Persists c')
  | asks {a : Ask} {seq : Nat} {watch : Watch} {outcome : Option (Except Failure Json)}
      (hsource : Source e c a) (hunheard : ∀ body, outcome ≠ some (.ok body))
      (hcall : e'.call? id =
        some ⟨c.role, .asking 0 seq a watch outcome (.answer a.after), false⟩)
      (hwritten : e'.written = e.written ++ [⟨seq, a.command, a.arguments⟩])
  | ends (outcome : Except Failure Answer) (hends : Ends e c outcome)
      (hfinish : e' = e.finish id outcome)

variable {t : Terms} {e e' : Engine} {m : Moment} {d : Deed} {r r' : Relay} {id : Nat} {c : Call}
variable {u : String}

/-! ## Documents and commands -/

/-- A deed leaves the documents as they are that it does not open, change or
close. -/
theorem session?_does (hdoes : Does t r d r') (hsound : r.Sound) (hd : d.edited? ≠ some u) :
    r'.session? u = r.session? u := by
  have hne : ∀ {uri : String}, some uri ≠ some u → uri ≠ u := fun h heq => h (congrArg some heq)
  cases hdoes with
  | opened uri languageId version text =>
    exact (Relay.session?_autoSchedule uri _ u).trans
      (Relay.session?_openDocument_of_ne languageId version text (hne hd) r)
  | changed uri version changes =>
    have hchanges := Relay.changesOnly_changeDocument (fun s hopen => (hsound.filed uri s hopen).1)
      version changes
    exact (Relay.session?_autoSchedule uri _ u).trans (hchanges.others u (hne hd))
  | closed uri => exact Relay.session?_didClose_of_ne (hne hd) r
  | ended => exact Relay.session?_of_sessions (Relay.sessions_shutdown r) u
  | scheduled uri => exact (Relay.leaves_schedule uri r).session? u
  | told name arguments =>
    exact Relay.session?_of_sessions (Relay.sessions_notify name arguments r) u
  | heard message => exact (Relay.leaves_receive message r).session? u
  | disconnected cause => exact Relay.session?_of_sessions (Relay.sessions_disconnect cause r) u

/-- Between deeds documents stay as they are, and commands are only added. -/
theorem onward_shift (hshift : Shift t e e') (h : e.Orderly) :
    (e'.relay 0).sessions = (e.relay 0).sessions ∧ e.written <+: e'.written := by
  have hsame : ∀ {e' : Engine}, e'.record = e.record → e.written <+: e'.written := by
    intro e' hrecord
    have hwritten : e'.written = e.written := by rw [written, written, hrecord]
    exact hwritten ▸ List.prefix_rfl
  have htaken : ∀ {r : Relay}, r.sessions = (e.relay 0).sessions →
      ((e.takeIn r).relay 0).sessions = (e.relay 0).sessions ∧
        e.written <+: (e.takeIn r).written := by
    intro r hr
    rw [relay_takeIn h, written_takeIn h]
    exact ⟨hr, List.prefix_append _ _⟩
  cases hshift with
  | served hserves => exact htaken hserves.leaves.sessions
  | made => exact ⟨rfl, hsame rfl⟩
  | asked => exact ⟨rfl, written_wrote (e := e) .. ▸ List.prefix_append _ _⟩
  | waited _ _ _ _ hserves =>
    exact htaken (r := Relay.addWaiter _ _ _) hserves.leaves.sessions
  | withdrew => exact ⟨by rw [relay_mapRelay_calls h]; rfl, hsame rfl⟩
  | dropped => exact ⟨by rw [relay_mapRelay_calls h]; rfl, hsame rfl⟩
  | left => exact ⟨by rw [relay_mapRelay h]; rfl, hsame rfl⟩
  | altered => exact ⟨rfl, hsame rfl⟩
  | @ended id c outcome hcall =>
    obtain ⟨handedOut, told, agenda, hfinish, -⟩ := finish_of_call hcall outcome
    rw [hfinish]
    exact ⟨rfl, hsame rfl⟩
  | logged level text => exact ⟨rfl, written_log (e := e) level text ▸ List.prefix_rfl⟩
  | timed => exact ⟨rfl, hsame rfl⟩

theorem onward_shifts (hshifts : Shifts t e e') (h : e.Orderly) :
    (e'.relay 0).sessions = (e.relay 0).sessions ∧ e.written <+: e'.written := by
  refine (hshifts.keep (P := fun e' => e'.Orderly ∧
    (e'.relay 0).sessions = (e.relay 0).sessions ∧ e.written <+: e'.written) ?_
    ⟨h, rfl, List.prefix_rfl⟩).2
  rintro e₁ e₂ hshift ⟨h₁, hsessions, hwritten⟩
  obtain ⟨hstill, hmore⟩ := onward_shift hshift h₁
  exact ⟨orderly_shift hshift h₁, hstill.trans hsessions, hwritten.trans hmore⟩

/-- **A document stays as it is** as long as no deed opens, changes or closes it. -/
theorem session?_work {deeds : List Deed} (h : m.Orderly)
    (hleft : ∀ d ∈ deeds, d.edited? ≠ some u) :
    ((work deeds m).engine.relay 0).session? u = (m.engine.relay 0).session? u := by
  induction deeds generalizing m with
  | nil => rfl
  | cons d rest ih =>
    have hmeets : Deed.Meets .any m d := (meet_any [d] m).1
    refine (ih (orderly_perform h hmeets) fun d' hd' =>
      hleft d' (List.mem_cons_of_mem _ hd')).trans ?_
    rcases perform_cases h hmeets with ⟨r, hdoes, heq⟩ | hshifts
    · rw [heq]
      refine Eq.trans ?_ (session?_does hdoes h.engine.sound (hleft d List.mem_cons_self))
      exact Relay.session?_of_sessions (by rw [relay_takeIn h.engine]) u
    · exact Relay.session?_of_sessions (onward_shifts hshifts h.engine).1 u

/-! ## One call -/

/-- A call that is not for diagnostics takes in the response to its command, if to
anything. -/
theorem heed_cases_of_query (hquery : ¬ c.IsCheck) (fx : List Effect) (id : Nat) :
    fx.foldl (Call.heed id) c = c ∨ ∃ seq ask watch next o,
      c.stage = .asking 0 seq ask watch none next ∧ .answered seq o ∈ fx ∧
        fx.foldl (Call.heed id) c = { c with stage := .asking 0 seq ask watch (some o) next } := by
  rcases foldl_heed_cases fx id c with ⟨hsame, -⟩ | htold | ⟨i, o, hstage, -⟩
  · exact .inl hsame
  · exact .inr htold
  · exact absurd (by simp [Call.IsCheck, hstage]) hquery

/-- What the relay does for calls answers none. -/
theorem call?_serves (h : e.Orderly) (hserves : Serves (e.relay 0) r)
    (houtbox : r'.outbox = r.outbox) (hcall : e.call? id = some c) (hquery : ¬ c.IsCheck) :
    (e.takeIn r').call? id = some c := by
  obtain ⟨fx, hfx, hallowed, -⟩ := hserves.abides.added
  rw [h.collected, List.nil_append] at hfx
  rw [call?_heed h.apart hcall]
  rcases heed_cases_of_query hquery r'.outbox id with hsame | ⟨seq, ask, watch, next, o, -, ho, -⟩
  · rw [hsame]
  · rw [houtbox, hfx] at ho
    exact absurd (hallowed _ ho) fun hfalse => hfalse

theorem call?_update (hcall : e.call? id = some c) {id' : Nat} (hne : id' ≠ id) (f : Call → Call) :
    Table.get? id (Table.update id' f e.calls) = some c := by
  rw [Table.get?_update, if_neg hne]
  exact hcall

theorem call?_update_self (hcall : e.call? id = some c) (c' : Call) :
    Table.get? id (Table.update id (fun _ => c') e.calls) = some c' := by
  have hget : Table.get? id e.calls = some c := hcall
  rw [Table.get?_update, if_pos rfl, hget]
  rfl

/-- **What a shift does to a call that puts a query**: nothing that matters, or the
call writes a command, or ends. -/
theorem turns_shift (hshift : Shift t e e') (h : e.Orderly) (hcall : e.call? id = some c)
    (hquery : ¬ c.IsCheck) : Turns id c e e' := by
  have hself : ∀ {c'}, e.call? id = some c' → c' = c := fun h' =>
    Option.some.inj (h'.symm.trans hcall)
  have hkept : ∀ {e' : Engine}, e'.call? id = some c → Turns id c e e' := fun h' =>
    .kept c h' (.stage c.cancelled)
  cases hshift with
  | served hserves => exact hkept (call?_serves h hserves rfl hcall hquery)
  | made role work => exact hkept (call?_spawn h.made hcall role work)
  | @asked id' c' a watch outcome hcall' hfree hsource hup houtcome =>
    by_cases hid : id' = id
    · subst hid
      cases hself hcall'
      refine .asks hsource (fun body => ?_) (call?_update_self hcall _) (written_wrote ..)
      rcases houtcome with rfl | rfl <;> simp
    · exact hkept (call?_update hcall hid _)
  | @waited id' c' uri r hcall' hfree hcheck hup hserves =>
    have hid : id' ≠ id := by
      rintro rfl
      cases hself hcall'
      exact hquery hcheck
    have hcall'' : (e.takeIn (r.addWaiter uri id')).call? id = some c :=
      call?_serves h hserves rfl hcall hquery
    exact hkept (call?_update hcall'' hid _)
  | @withdrew id' c' seq ask watch next hcall' hstage watch' cancelled =>
    by_cases hid : id' = id
    · subst hid
      cases hself hcall'
      exact .kept _ (call?_update_self hcall _) (.asking watch' _ cancelled hstage (by simp))
    · exact hkept (call?_update hcall hid _)
  | @dropped id' c' hcall' hstage =>
    have hid : id' ≠ id := by
      rintro rfl
      cases hself hcall'
      exact hquery (by simp [Call.IsCheck, hstage])
    exact hkept (call?_update hcall hid _)
  | left => exact hkept hcall
  | @altered id' c' c'' hcall' halike =>
    by_cases hid : id' = id
    · subst hid
      cases hself hcall'
      refine .kept c'' (call?_update_self hcall _) ?_
      cases halike with
      | woken signal' hstage => exact .asking _ _ c.cancelled hstage fun _ h => h
      | marked => exact .stage true
      | gathered _ _ _ _ _ _ hcheck => exact absurd hcheck hquery
    · exact hkept (call?_update hcall hid _)
  | @ended id' c' outcome hcall' hfree hends =>
    by_cases hid : id' = id
    · subst hid
      cases hself hcall'
      exact .ends outcome hends rfl
    · obtain ⟨handedOut, told, agenda, hfinish, -⟩ := finish_of_call hcall' outcome
      refine hkept ?_
      rw [hfinish]
      change Table.get? id (Table.erase id' e.calls) = some c
      rw [Table.get?_erase, if_neg hid]
      exact hcall
  | logged => exact hkept hcall
  | timed => exact hkept hcall

/-! ## What clients are told -/

theorem ended_report (role : Role) (outcome : Except Failure Answer) (e : Engine) :
    e.ended <+: (e.report role outcome).ended ∧
      ∀ name, role = .client name → (name, outcome) ∈ (e.report role outcome).ended := by
  cases role with
  | client name =>
    refine ⟨List.prefix_append _ _, fun name' heq => ?_⟩
    cases heq
    exact List.mem_append_right _ (List.mem_singleton_self _)
  | part whole => exact ⟨List.prefix_rfl, by simp⟩
  | timer relay => exact ⟨List.prefix_rfl, by simp⟩

theorem ended_keep (id : Nat) (answer : Answer) (e : Engine) :
    (e.keep id answer).1.ended = e.ended := by
  obtain ⟨handedOut, hkept⟩ := keep_eq id answer e
  rw [hkept]

/-- **A call that ends tells its client**: of a failure as it is, and of an answer as
it is kept. -/
theorem ended_finish (hcall : e.call? id = some c) (outcome : Except Failure Answer) :
    e.ended <+: (e.finish id outcome).ended ∧ ∀ name, c.role = .client name →
      (∀ answer, outcome = .ok answer → ∀ e : Engine, e.keep id answer = (e, answer)) →
        (name, outcome) ∈ (e.finish id outcome).ended := by
  unfold finish
  simp only [hcall]
  cases outcome with
  | error f =>
    obtain ⟨hbefore, htold⟩ :=
      ended_report c.role (.error f) { e with calls := Table.erase id e.calls }
    exact ⟨hbefore, fun name hrole _ => htold name hrole⟩
  | ok answer =>
    have hkept : e.ended <+:
        (keep id answer { e with calls := Table.erase id e.calls }).1.ended :=
      (ended_keep id answer { e with calls := Table.erase id e.calls }).symm ▸ List.prefix_rfl
    refine ⟨hkept.trans (ended_report c.role _ _).1, fun name hrole hkeep => ?_⟩
    simp only [hkeep answer rfl]
    exact (ended_report c.role (.ok answer) _).2 name hrole

/-- What ended before has ended. -/
theorem ended_shift (hshift : Shift t e e') (h : e.Orderly) : e.ended <+: e'.ended := by
  have htaken : ∀ r : Relay, e.ended <+: (e.takeIn r).ended := by
    intro r
    rw [(heeded_takeIn h.apart r).same]
    exact List.prefix_rfl
  cases hshift with
  | served => exact htaken _
  | waited => exact htaken _
  | ended hcall => exact (ended_finish hcall _).1
  | _ => exact List.prefix_rfl

/-! ## Responses -/

/-- The response to the command with the number has come in, and brings the body. -/
def Heard (deeds : List Deed) (seq : Nat) (body : Json) : Prop :=
  ∃ message, .plain (.receive message) ∈ deeds ∧ ∃ response,
    Service.responseTo? message seq = some response ∧ response.success = true ∧ response.body = body

theorem Heard.mono {deeds deeds' : List Deed} {seq : Nat} {body : Json} (h : Heard deeds seq body)
    (hmore : deeds ⊆ deeds') : Heard deeds' seq body := by
  obtain ⟨message, hmessage, hresponse⟩ := h
  exact ⟨message, hmore hmessage, hresponse⟩

/-- A command is answered at once by the response to it alone. -/
theorem heard_of_answered (hdoes : Does t r d r') (hsound : r.Sound) (hcollected : r.outbox = [])
    {seq : Nat} {body : Json} (hanswered : .answered seq (.ok body) ∈ r'.outbox) :
    Heard [d] seq body := by
  rcases does_cases hdoes hsound with habides | ⟨message, response, rfl, hmessage, rfl⟩ |
    ⟨cause, -, hup, rfl⟩
  · obtain ⟨fx, hfx, hallowed, -⟩ := habides.added
    rw [hfx, hcollected, List.nil_append] at hanswered
    exact absurd (hallowed _ hanswered) fun hfalse => hfalse
  · obtain ⟨hseq, hsuccess, hbody⟩ := Relay.answered_resolve hcollected hanswered
    refine ⟨message, List.mem_singleton_self _, response, ?_, hsuccess, hbody⟩
    simp [Service.responseTo?, hmessage, hseq]
  · rw [Relay.outbox_disconnect hup hcollected] at hanswered
    obtain ⟨-, heq⟩ := Relay.answered_mem_closing.mp hanswered
    cases heq

end Engine

end LanguageRelay
