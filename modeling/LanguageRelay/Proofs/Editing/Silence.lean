import LanguageRelay.Proofs.Editing.Accounts
import LanguageRelay.Proofs.Editing.Openings
import LanguageRelay.Proofs.Checks.Settlement
/-!
# Silence about closed documents

A document that is closed is cleared: one notification without diagnostics, no
check, and whoever waited for its diagnostics is told that there is nothing to
wait for (`Clears`). From then on the relay is silent about it until it is
opened again, whatever is still under way: checks that were written for it,
timers that are set, calls that ask for it (`silence_past_closing`).

Other documents may be of the same file, so a check says by its number on whose
behalf it was written: it is in flight for that document. This takes a client
that leaves error checks to the relay.
-/

namespace LanguageRelay

namespace Relay

variable {r r' : Relay} {uri : String}

/-- The effect is not for a document: what was published is another's, and a check
that was written is in flight for another that is open. -/
def Elsewhere (uri : String) (r : Relay) : Effect → Prop
  | .sent c => c.name = Service.errorCheckName →
    ∃ v, v ≠ uri ∧ r.session? v ≠ none ∧ c.seq ∈ inFlightOf v r
  | .published v _ _ => v ≠ uri
  | _ => True

/-- Records are of open documents, so what they account for is not for a closed
one. -/
theorem Accounted.elsewhere {e : Effect} (h : Accounted r e) (hsound : r.Sound)
    (hnone : r.session? uri = none) : Elsewhere uri r e := by
  have hopen : ∀ v, r.check? v ≠ none → v ≠ uri ∧ r.session? v ≠ none := by
    intro v hv
    obtain ⟨c, hcheck⟩ := Option.ne_none_iff_exists'.mp hv
    obtain ⟨s, hs, -⟩ := hsound.opened v c hcheck
    refine ⟨?_, by simp [hs]⟩
    rintro rfl
    rw [hnone] at hs
    cases hs
  cases e with
  | sent command =>
    intro hname
    obtain ⟨v, d, hcheck, hmem, -⟩ := h hname
    have hv : r.check? v ≠ none := by simp [hcheck]
    exact ⟨v, (hopen v hv).1, (hopen v hv).2, hmem⟩
  | published v => exact (hopen v h).1
  | _ => exact trivial

/-! ## What the editor announces -/

theorem quiet_autoSchedule (uri : String) (done : Relay × Option Failure) :
    Quiet done.1 (autoSchedule uri done).1 := by
  obtain ⟨r, failure⟩ := done
  cases failure with
  | some e => exact .refl r
  | none =>
    simp only [autoSchedule]
    split
    · exact quiet_schedule uri r
    · exact .refl r

theorem quiet_shutdown (r : Relay) : Quiet r r.shutdown.1 := by
  have hsent := quiet_notify Service.exitName (by decide) .null r
  unfold shutdown
  split
  · exact .refl r
  · split
    all_goals
      rename_i heq
      rwa [heq] at hsent

/-- Closing a document comes to nothing, or to a last notification of it. -/
theorem didClose_cases (uri : String) (r : Relay) :
    (r.didClose uri).1 = (r.closeDocument uri).1 ∧ (r.didClose uri).2 ≠ none ∨
      (r.didClose uri).1 = (r.closeDocument uri).1.emit (.published uri [] none) ∧
        (r.closeDocument uri).2 = none := by
  unfold didClose
  split
  · rename_i heq
    exact .inl ⟨by rw [heq], by simp⟩
  · rename_i heq
    exact .inr ⟨by rw [heq], by rw [heq]⟩

/-- Forgetting a document tells those who wait for its diagnostics, and nobody
else. -/
theorem outbox_forget (uri : String) (r : Relay) :
    ∃ fx, (r.forget uri).outbox = r.outbox ++ fx ∧ (∀ e ∈ fx, e.noted = false) ∧
      ∀ id o, .released id o ∈ fx ↔ r.Listed uri id ∧ o = .ok () := by
  obtain ⟨fx, hdisarm, hfx⟩ : ∃ fx, (r.disarm uri).outbox = r.outbox ++ fx ∧
      ∀ e ∈ fx, ∃ timer, e = .disarmed uri timer := by
    unfold disarm
    split
    · exact ⟨[], by simp, by simp⟩
    · exact ⟨[_], rfl, by simp⟩
  have hnoted : ∀ e ∈ fx, e.noted = false := by
    intro e he
    obtain ⟨timer, rfl⟩ := hfx e he
    rfl
  have hreleased : ∀ id o, .released id o ∉ fx := by
    intro id o ho
    obtain ⟨timer, heq⟩ := hfx _ ho
    cases heq
  cases hcheck : r.check? uri with
  | none =>
    rw [forget_of_none hcheck]
    refine ⟨fx, hdisarm, hnoted, fun id o => ?_⟩
    simp [hreleased, Listed, hcheck]
  | some c =>
    rw [forget_of_some hcheck]
    refine ⟨fx ++ releases (.ok ()) c.waiters, by simp [hdisarm], fun e he => ?_, fun id o => ?_⟩
    · rcases List.mem_append.mp he with he | he
      · exact hnoted e he
      · obtain ⟨w, -, rfl⟩ := List.mem_map.mp he
        rfl
    · rw [List.mem_append, listed_iff hcheck, mem_releases]
      simp [hreleased, eq_comm]

/-- **What closing a document does**, when it is done: whoever waits for its
diagnostics is released, the command is written, and the document is cleared. -/
theorem didClose_of_done (hdone : (r.didClose uri).2 = none) :
    ∃ s fx, r.session? uri = some s ∧
      (r.didClose uri).1.outbox = r.outbox ++ (fx ++
        [.sent ⟨(r.nextSeq : Nat), Service.closeName, Service.fileArgument s.file⟩,
          .published uri [] none]) ∧
      (∀ e ∈ fx, e.noted = false) ∧
      ∀ id o, .released id o ∈ fx ↔ r.Listed uri id ∧ o = .ok () := by
  obtain ⟨-, hfailed⟩ | ⟨heq, hclosed⟩ := didClose_cases uri r
  · exact absurd hdone hfailed
  cases hopen : r.session? uri with
  | none => simp [closeDocument, require, hopen] at hclosed
  | some s =>
    -- the session goes first, and the calls that wait are told before the command is written
    obtain ⟨fx, hforgot, hnoted, hreleased⟩ :=
      outbox_forget uri { r with sessions := Table.erase uri r.sessions }
    have hlink := link_forget uri { r with sessions := Table.erase uri r.sessions }
    refine ⟨s, fx, rfl, ?_, hnoted, hreleased⟩
    rw [heq]
    cases hrefusal : r.link.refusal? with
    | some cause => exact absurd hclosed (closeDocument_fails hrefusal uri)
    | none =>
      simp only [closeDocument, require, hopen]
      generalize forget uri { r with sessions := Table.erase uri r.sessions } = r₁ at hforgot hlink
      have htaken : r₁.link.refusal? = none := by rw [hlink]; exact hrefusal
      have hnext : r₁.nextSeq = r.nextSeq := by rw [nextSeq, hlink, nextSeq]
      simp [notify_of_taken htaken, hnext, emit, takeSeq, hforgot]

end Relay

/-- The query is not a check in the client's own words. -/
def Query.Reserved : Query → Prop
  | .command name _ _ => name ≠ Service.errorCheckName
  | _ => True

/-- The call was not made for such a query. -/
def Call.Reserved (c : Call) : Prop := ∀ i q, c.stage = .created (.query i q) → q.Reserved

namespace Engine

/-- Error checks are left to the relay: the client writes none in its own words. -/
def Terms.reserved : Terms where
  tells name _ := name ≠ Service.errorCheckName
  puts _ q := q.Reserved
  hears _ _ := True

/-- All that was recorded since is of one kind. -/
def Records (P : Effect → Prop) (e e' : Engine) : Prop :=
  ∃ fx, e'.record = e.record ++ fx ∧ ∀ entry ∈ fx, P entry.2

/-- What happens between two deeds leaves sessions alone, and what is written or
published is accounted for. -/
structure Attends (e e' : Engine) : Prop where
  sessions : (e'.relay 0).sessions = (e.relay 0).sessions
  retains : (e.relay 0).Retains (e'.relay 0)
  records : Records (e'.relay 0).Accounted e e'

variable {e e' e'' : Engine} {m : Moment} {d : Deed} {r r' : Relay} {uri : String} {id : Nat}
variable {c c' : Call} {P Q : Effect → Prop}

theorem Records.refl (P : Effect → Prop) (e : Engine) : Records P e e := ⟨[], by simp, by simp⟩

theorem Records.trans (h : Records P e e') (h' : Records P e' e'') : Records P e e'' := by
  obtain ⟨fx, hfx, hP⟩ := h
  obtain ⟨fy, hfy, hP'⟩ := h'
  refine ⟨fx ++ fy, by rw [hfy, hfx, List.append_assoc], fun entry hentry => ?_⟩
  exact (List.mem_append.mp hentry).elim (hP entry) (hP' entry)

theorem Records.mono (hPQ : ∀ x, P x → Q x) (h : Records P e e') : Records Q e e' := by
  obtain ⟨fx, hfx, hP⟩ := h
  exact ⟨fx, hfx, fun entry hentry => hPQ _ (hP entry hentry)⟩

/-- What a relay did is recorded, but for what calls and timers are told. -/
theorem records_takeIn (h : e.Orderly) (hadds : Relay.Adds P (e.relay 0) r) :
    Records P e (e.takeIn r) := by
  obtain ⟨fx, hfx, hP⟩ := hadds
  rw [h.collected, List.nil_append] at hfx
  have hrecord : (e.takeIn r).record = _ := (heeded_takeIn h.apart r).record
  refine ⟨_, hrecord, fun entry hentry => ?_⟩
  obtain ⟨effect, heffect, rfl⟩ := List.mem_map.mp hentry
  exact hP effect (hfx ▸ (List.mem_filter.mp heffect).1)

theorem Attends.refl (e : Engine) : Attends e e := ⟨rfl, .refl _, .refl _ e⟩

theorem Attends.trans (h : Attends e e') (h' : Attends e' e'') : Attends e e'' where
  sessions := h'.sessions.trans h.sessions
  retains := h.retains.trans h'.retains
  records := (h.records.mono fun _ hx => hx.retains h'.retains).trans h'.records

/-- Where nothing is recorded. -/
theorem Attends.of_unrecorded (hsessions : (e'.relay 0).sessions = (e.relay 0).sessions)
    (hretains : (e.relay 0).Retains (e'.relay 0)) (hrecord : e'.record = e.record) :
    Attends e e' :=
  ⟨hsessions, hretains, [], by simp [hrecord], by simp⟩

/-- What the relay does for a call is taken in. -/
theorem attends_takeIn (h : e.Orderly) (hsessions : r.sessions = (e.relay 0).sessions)
    (hretains : (e.relay 0).Retains r) (haccounted : Relay.Adds r.Accounted (e.relay 0) r) :
    Attends e (e.takeIn r) := by
  -- only the outbox is collected
  have hsame : r.Retains { r with outbox := [] } := Relay.retains_of_checks rfl
  refine ⟨?_, ?_, ?_⟩
  all_goals rw [relay_takeIn h]
  · exact hsessions
  · exact hretains.trans hsame
  · exact records_takeIn h (haccounted.accounted_retains hsame)

/-! ## Calls -/

/-- What calls are told does not matter. -/
theorem reserved_heed (h : c.Reserved) (fx : List Effect) (id : Nat) :
    (fx.foldl (Call.heed id) c).Reserved := by
  rcases foldl_heed_cases fx id c with ⟨hsame, -⟩ | ⟨seq, ask, watch, next, o, -, -, htold⟩ |
    ⟨i, o, -, -, htold⟩
  · rwa [hsame]
  · simp [htold, Call.Reserved]
  · simp [htold, Call.Reserved]

theorem reserved_takeIn (h : e.Orderly) (hcalls : ∀ x ∈ e.calls, x.2.Reserved) (r : Relay) :
    ∀ x ∈ (e.takeIn r).calls, x.2.Reserved := by
  have hheeded : (e.takeIn r).calls = _ := (heeded_takeIn h.apart r).calls
  intro x hx
  rw [hheeded] at hx
  obtain ⟨y, hy, rfl⟩ := List.mem_map.mp hx
  exact reserved_heed (hcalls y hy) _ _

/-- **No call is made for a check in the client's own words.** -/
theorem reserved_shift (hshift : Shift .reserved e e') (h : e.Orderly)
    (hcalls : ∀ x ∈ e.calls, x.2.Reserved) : ∀ x ∈ e'.calls, x.2.Reserved := by
  have hupdate : ∀ {calls : List (Nat × Call)} {id c'}, (∀ x ∈ calls, x.2.Reserved) →
      c'.Reserved → ∀ x ∈ Table.update id (fun _ => c') calls, x.2.Reserved := by
    intro calls id c' hcalls hc' x hx
    rcases Table.mem_update hx with hx | ⟨-, -, rfl⟩
    · exact hcalls x hx
    · exact hc'
  cases hshift with
  | served => exact reserved_takeIn h hcalls _
  | made role work hrole hwork hputs =>
    intro x hx
    rcases Table.mem_put hx with rfl | hx
    · rintro i q heq
      cases heq
      exact hputs i q rfl
    · exact hcalls x hx
  | waited =>
    intro x hx
    rcases Table.mem_update hx with hx | ⟨-, -, rfl⟩
    · exact reserved_takeIn h hcalls _ x hx
    · simp [Call.Reserved]
  | asked => exact hupdate hcalls (by simp [Call.Reserved])
  | withdrew => exact hupdate hcalls (by simp [Call.Reserved])
  | dropped => exact hupdate hcalls (by simp [Call.Reserved])
  | left => exact hcalls
  | altered hcall halike =>
    refine hupdate hcalls ?_
    cases halike with
    | woken => simp [Call.Reserved]
    | marked => exact hcalls _ (mem_of_call? hcall)
    | gathered => simp [Call.Reserved]
  | @ended id c outcome hcall =>
    obtain ⟨handedOut, told, agenda, hfinish, -⟩ := finish_of_call hcall outcome
    rw [hfinish]
    exact fun x hx => hcalls x (Table.mem_erase_iff.mp hx).1
  | logged => exact hcalls
  | timed => exact hcalls

/-- A query about a place is put as its own command. -/
theorem command_of_atPlace {operation command : String} {p : Position} {more : Fields}
    {after : After} {a : Ask} (h : Query.atPlace r uri operation p command more after = .ok a) :
    a.command = command := by
  obtain ⟨s, -, h⟩ := bind_eq_ok.mp h
  cases h
  rfl

/-- A query about a document is put as a command of its own, which is no check. -/
theorem plain_of_first {q : Query} {a : Ask} (hq : q.Reserved) (h : q.first r = .ok a) :
    a.command ≠ Service.errorCheckName := by
  cases q with
  | introduction =>
    cases h
    exact of_decide_eq_true rfl
  | command name arguments window =>
    cases h
    exact hq
  | completion uri p =>
    obtain ⟨s, -, h⟩ := bind_eq_ok.mp h
    cases h
    exact of_decide_eq_true rfl
  | details source item =>
    obtain ⟨handle, -, h⟩ := bind_eq_ok.mp h
    obtain ⟨s, -, h⟩ := bind_eq_ok.mp h
    cases h
    exact of_decide_eq_true rfl
  | symbols uri =>
    obtain ⟨s, -, h⟩ := bind_eq_ok.mp h
    cases h
    exact of_decide_eq_true rfl
  | formatting uri tabSize insertSpaces =>
    obtain ⟨s, -, h⟩ := bind_eq_ok.mp h
    cases h
    exact of_decide_eq_true rfl
  | _ =>
    rw [command_of_atPlace h]
    decide

/-- **Whatever happens between two deeds is accounted for.** -/
theorem attends_shift (hshift : Shift .reserved e e') (h : e.Orderly)
    (hcalls : ∀ x ∈ e.calls, x.2.Reserved) : Attends e e' := by
  cases hshift with
  | served hserves =>
    exact attends_takeIn h hserves.leaves.sessions hserves.retains hserves.accounted
  | made => exact .of_unrecorded rfl (.refl _) rfl
  | @asked id c a watch outcome hcall hfree hsource =>
    have hplain : a.command ≠ Service.errorCheckName := by
      cases hsource with
      | first q hstage hq => exact plain_of_first (hcalls _ (mem_of_call? hcall) 0 q hstage) hq
      | next file text hstage ha =>
        rw [show a.command = Service.formatName by rw [ha]; rfl]
        decide
    refine ⟨rfl, Relay.retains_of_checks rfl, _, rfl, fun entry hentry => ?_⟩
    rw [List.mem_singleton.mp hentry]
    exact fun hname => absurd hname hplain
  | @waited id c uri r hcall hfree hseq hup hserves =>
    -- the waiter itself does not matter to what is in flight
    have hto := (Relay.retains_addWaiter uri id r).1
    have hattends : Attends e (e.takeIn (r.addWaiter uri id)) :=
      attends_takeIn h hserves.leaves.sessions (hserves.retains.trans hto)
        (hserves.accounted.accounted_retains hto)
    exact ⟨hattends.sessions, hattends.retains, hattends.records⟩
  | withdrew =>
    exact .of_unrecorded (by rw [relay_mapRelay_calls h]; rfl)
      (by rw [relay_mapRelay_calls h]; exact Relay.retains_of_checks rfl) rfl
  | @dropped id =>
    exact .of_unrecorded (by rw [relay_mapRelay_calls h]; rfl)
      (by rw [relay_mapRelay_calls h]; exact Relay.retains_mapChecks (by intro c; exact ⟨rfl, rfl⟩) _) rfl
  | left =>
    exact .of_unrecorded (by rw [relay_mapRelay h]; rfl)
      (by rw [relay_mapRelay h]; exact Relay.retains_of_checks rfl) rfl
  | altered => exact .of_unrecorded rfl (.refl _) rfl
  | @ended id c outcome hcall =>
    obtain ⟨handedOut, told, agenda, hfinish, -⟩ := finish_of_call hcall outcome
    rw [hfinish]
    exact .of_unrecorded rfl (.refl _) rfl
  | logged level text => exact ⟨rfl, .refl _, [(0, .logged level text)], rfl, by simp [Relay.Accounted]⟩
  | timed => exact .of_unrecorded rfl (.refl _) rfl

/-- So is any number of shifts. -/
theorem attends_shifts (hshifts : Shifts .reserved e e') (h : e.Orderly)
    (hcalls : ∀ x ∈ e.calls, x.2.Reserved) :
    (∀ x ∈ e'.calls, x.2.Reserved) ∧ Attends e e' := by
  refine (hshifts.keep (P := fun e' => e'.Orderly ∧ (∀ x ∈ e'.calls, x.2.Reserved) ∧ Attends e e')
    ?_ ⟨h, hcalls, .refl e⟩).2
  rintro e₁ e₂ hshift ⟨h₁, hcalls₁, hattends⟩
  exact ⟨orderly_shift hshift h₁, reserved_shift hshift h₁ hcalls₁,
    hattends.trans (attends_shift hshift h₁ hcalls₁)⟩

/-! ## Deeds -/

/-- What a deed does at once is accounted for, unless it closes a document. -/
theorem accounted_does (hdoes : Does .reserved r d r') (hsound : r.Sound)
    (hcloses : ∀ uri, d ≠ .closed uri) : Relay.Adds r'.Accounted r r' := by
  have hquiet : ∀ {r r' : Relay}, Relay.Quiet r r' → Relay.Adds r'.Accounted r r' := fun hq =>
    hq.adds.mono fun _ => Relay.accounted_of_not_ofChecks
  cases hdoes with
  | opened uri languageId version text =>
    exact (Relay.accounted_perform (.openDocument uri languageId version text) hsound).accounted_quiet
      (Relay.quiet_autoSchedule uri _)
  | changed uri version changes =>
    exact (Relay.accounted_perform (.changeDocument uri version changes) hsound).accounted_quiet
      (Relay.quiet_autoSchedule uri _)
  | closed uri => exact absurd rfl (hcloses uri)
  | ended => exact hquiet (Relay.quiet_shutdown r)
  | scheduled uri => exact hquiet (Relay.quiet_schedule uri r)
  | told name arguments htells => exact hquiet (Relay.quiet_notify name htells arguments r)
  | heard message => exact Relay.accounted_perform (.receive message) hsound
  | disconnected cause => exact Relay.accounted_perform (.disconnect cause) hsound

/-- **What a deed does at once is not for a document that is not open**, unless it
opens it. -/
theorem elsewhere_does (hdoes : Does .reserved r d r') (hsound : r.Sound)
    (hnone : r.session? uri = none) (hopens : d.opens? ≠ some uri) :
    r'.session? uri = none ∧ Relay.Adds (r'.Elsewhere uri) r r' := by
  have hsound' := sound_does hdoes hsound
  have hnone' : r'.session? uri = none := by
    by_contra hopen
    obtain ⟨s, hs⟩ := Option.ne_none_iff_exists'.mp hopen
    rcases fileAt_before hdoes hsound (Relay.fileAt_of_session hs) with hbefore | hopened
    · simp [Relay.fileAt, hnone] at hbefore
    · exact hopens hopened
  refine ⟨hnone', ?_⟩
  have helsewhere : ∀ {r'' : Relay}, Relay.Adds r'.Accounted r r'' →
      Relay.Adds (r'.Elsewhere uri) r r'' := fun h => h.mono fun _ hx => hx.elsewhere hsound' hnone'
  by_cases hcloses : ∃ v, d = .closed v
  · obtain ⟨v, rfl⟩ := hcloses
    cases hdoes
    -- the last notification of a document that is closed is of that document
    rcases Relay.didClose_cases v r with ⟨heq, -⟩ | ⟨heq, hdone⟩
    · refine helsewhere ?_
      rw [heq]
      exact Relay.accounted_perform (.closeDocument v) hsound
    · have hv : v ≠ uri := by
        rintro rfl
        simp [Relay.closeDocument, Relay.require, hnone] at hdone
      rw [heq] at helsewhere ⊢
      refine (helsewhere ?_).trans (Relay.adds_emit hv _)
      exact (Relay.accounted_perform (.closeDocument v) hsound).accounted_retains
        (Relay.retains_of_checks rfl)
  · exact helsewhere (accounted_does hdoes hsound fun v hv => hcloses ⟨v, hv⟩)

/-- The engine is orderly, and no call is made for a check in the client's own
words. -/
structure Moment.Reserved (m : Moment) : Prop where
  orderly : m.Orderly
  calls : ∀ x ∈ m.engine.calls, x.2.Reserved

theorem reserved_perform (h : m.Reserved) (hmeets : Deed.Meets .reserved m d) :
    (d.perform m).Reserved := by
  refine ⟨orderly_perform h.orderly hmeets, ?_⟩
  rcases perform_cases h.orderly hmeets with ⟨r, -, heq⟩ | hshifts
  · rw [heq]
    exact reserved_takeIn h.orderly.engine h.calls r
  · exact (attends_shifts hshifts h.orderly.engine h.calls).1

/-- **A document is left alone**: it is not open, and nothing that was done is for
it. -/
structure LeavesAlone (uri : String) (e e' : Engine) : Prop where
  unopened : (e'.relay 0).session? uri = none
  records : Records ((e'.relay 0).Elsewhere uri) e e'

/-- **A deed leaves a document alone that is not open**, unless it opens it. -/
theorem leavesAlone_perform (h : m.Reserved) (hmeets : Deed.Meets .reserved m d)
    (hnone : (m.engine.relay 0).session? uri = none) (hopens : d.opens? ≠ some uri) :
    LeavesAlone uri m.engine (d.perform m).engine := by
  have hengine := h.orderly.engine
  rcases perform_cases h.orderly hmeets with ⟨r, hdoes, heq⟩ | hshifts
  · obtain ⟨hnone', hadds⟩ := elsewhere_does hdoes hengine.sound hnone hopens
    have hrelay := relay_takeIn hengine r
    rw [heq]
    refine ⟨by rw [hrelay]; exact hnone', records_takeIn hengine (hadds.mono fun x hx => ?_)⟩
    rw [hrelay]
    cases x <;> exact hx
  · obtain ⟨-, hattends⟩ := attends_shifts hshifts hengine h.calls
    have hnone' : ((d.perform m).engine.relay 0).session? uri = none := by
      rw [Relay.session?, hattends.sessions]
      exact hnone
    exact ⟨hnone', hattends.records.mono fun _ hx =>
      hx.elsewhere (hengine.shifts hshifts).sound hnone'⟩

/-- **A document that is not open is left alone by any deeds**, until one opens
it. -/
theorem unopened_work {deeds : List Deed} (h : m.Reserved) (hmeet : Meet .reserved deeds m)
    (hnone : (m.engine.relay 0).session? uri = none) (hopens : uri ∉ openedUris deeds) :
    (work deeds m).Reserved ∧ ((work deeds m).engine.relay 0).session? uri = none ∧
      Records (fun x => ¬ Relay.PublishesOf uri x) m.engine (work deeds m).engine := by
  induction deeds generalizing m with
  | nil => exact ⟨h, hnone, .refl _ _⟩
  | cons d rest ih =>
    simp only [mem_openedUris, List.mem_cons, exists_eq_or_imp, not_or] at hopens
    have halone := leavesAlone_perform h hmeet.1 hnone hopens.1
    obtain ⟨hreserved, hnone', hrecords⟩ := ih (reserved_perform h hmeet.1) hmeet.2 halone.unopened
      (mem_openedUris.not.mpr hopens.2)
    refine ⟨hreserved, hnone', .trans (halone.records.mono ?_) hrecords⟩
    rintro x hx ⟨diagnostics, version, rfl⟩
    exact hx rfl

/-! ## Closing a document -/

/-- **What closing a document does.** -/
structure Clears (uri : String) (e e' : Engine) : Prop where
  unopened : (e'.relay 0).session? uri = none
  /-- The command is written and what the editor shows is cleared, and that is
  all. -/
  record : ∃ s, (e.relay 0).session? uri = some s ∧ e'.record = e.record ++
    [(0, .sent ⟨((e.relay 0).nextSeq : Nat), Service.closeName, Service.fileArgument s.file⟩),
      (0, .published uri [] none)]
  /-- Whoever is listed as waiting for the document's diagnostics is told, and ends
  without an error when it runs. -/
  released : ∀ id, (e.relay 0).Listed uri id → ∃ c, e.call? id = some c ∧
    c.stage = .checking 0 none ∧
    e'.call? id = some { c with stage := .checking 0 (some (.ok ())) } ∧
    .resume id ∈ e'.agenda.ready ∧ e'.resume id = e'.finish id (.ok .nothing)

/-- A call that waits for diagnostics is told of the only outcome there is for it,
and has a job in line. -/
theorem told_takeIn {o : Except Failure Unit} (h : e.Orderly) (hcall : e.call? id = some c)
    (hstage : c.stage = .checking 0 none) (ho : .released id o ∈ r.outbox)
    (honly : ∀ o', .released id o' ∈ r.outbox → o' = o) :
    (e.takeIn r).call? id = some { c with stage := .checking 0 (some o) } ∧
      .resume id ∈ (e.takeIn r).agenda.ready := by
  have hmem := mem_of_call? hcall
  have hheeded := heeded_takeIn h.apart r
  have hcalls : (e.takeIn r).calls = _ := hheeded.calls
  have htold : r.outbox.foldl (Call.heed id) c = { c with stage := .checking 0 (some o) } := by
    rcases foldl_heed_cases r.outbox id c with ⟨-, -, hnone⟩ | ⟨_, _, _, _, _, hstage', -⟩ |
      ⟨i, o', hstage', ho', htold⟩
    · exact absurd ho (hnone 0 hstage o)
    · rw [hstage] at hstage'
      cases hstage'
    · rw [hstage] at hstage'
      cases hstage'
      rw [htold, honly o' ho']
  have hsingle : (Table.keys (e.takeIn r).calls).Nodup := by
    rw [hcalls]
    exact (h.apart.map fun x => by simp).single
  refine ⟨(Table.get?_eq_some_iff hsingle).mpr ?_, ?_⟩
  · rw [hcalls]
    exact List.mem_map.mpr ⟨_, hmem, by rw [htold]⟩
  · obtain ⟨js, hagenda, -, hwoken⟩ := hheeded.agenda
    rw [hagenda]
    refine List.mem_append_right _ (hwoken _ hmem ?_ ?_ _ ?_)
    · simp [Call.Waits, hstage]
    · simp [htold, Call.Waits]
    · simp [htold, Call.alarm?]

/-- A document that could be closed is cleared. -/
theorem clears_takeIn {whole : Prop} (h : e.Orderly)
    (hacc : Accounted whole (e.relay 0) (Wants e.calls))
    (hdone : ((e.relay 0).didClose uri).2 = none) :
    Clears uri e (e.takeIn ((e.relay 0).didClose uri).1) := by
  obtain ⟨s, fx, hopen, houtbox, hnoted, hreleased⟩ := Relay.didClose_of_done hdone
  have hfiles := Relay.fileAt_didClose uri (e.relay 0) uri
  have hrecord : (e.takeIn ((e.relay 0).didClose uri).1).record = _ := (heeded_takeIn h.apart _).record
  rw [h.collected, List.nil_append] at houtbox
  refine ⟨?_, ⟨s, hopen, ?_⟩, fun id hid => ?_⟩
  · rw [if_pos rfl] at hfiles
    rw [relay_takeIn h]
    exact Option.map_eq_none_iff.mp hfiles
  · have hnone : fx.filter Effect.noted = [] :=
      List.filter_eq_nil_iff.mpr fun x hx => by simp [hnoted x hx]
    rw [hrecord, houtbox, List.filter_append, hnone]
    rfl
  · -- who is listed waits, and no outcome is for it but that of the closing
    obtain ⟨c, hc, hwant⟩ := hacc.listed uri id hid
    obtain ⟨i, hstage⟩ := want?_eq_diagnostics.mp hwant
    have hstaged := (h.regular _ hc).stage
    simp only [hstage] at hstaged
    obtain rfl : i = 0 := hstaged.1
    have hcall : e.call? id = some c := (Table.get?_eq_some_iff h.apart.single).mpr hc
    have houtcomes : ∀ o, .released id o ∈ ((e.relay 0).didClose uri).1.outbox ↔ o = .ok () := by
      intro o
      rw [houtbox, List.mem_append, hreleased]
      simp [hid]
    obtain ⟨htold, hready⟩ := told_takeIn h hcall hstage ((houtcomes _).mpr rfl)
      fun o' ho' => (houtcomes o').mp ho'
    refine ⟨c, hcall, hstage, htold, hready, ?_⟩
    unfold resume
    simp only [htold, hstaged.2 rfl]
    rfl

/-- **Silence about closed documents**: after any deeds, closing a document that
could be closed clears it. Then nothing is published for it, and every deed leaves
it alone, until one opens it again. -/
theorem silence_past_closing (setup : Setup) (before after : List Deed) (uri : String)
    (hmeet : Meet .reserved (before ++ .closed uri :: after) (.new setup))
    (hdone : (((work before (.new setup)).engine.relay 0).didClose uri).2 = none)
    (hopens : uri ∉ openedUris after) :
    Clears uri (work before (.new setup)).engine
        (work (before ++ [.closed uri]) (.new setup)).engine ∧
      Records (fun x => ¬ Relay.PublishesOf uri x)
        (work (before ++ [.closed uri]) (.new setup)).engine
        (work (before ++ .closed uri :: after) (.new setup)).engine ∧
      ∀ past d rest, after = past ++ d :: rest →
        LeavesAlone uri (work (before ++ .closed uri :: past) (.new setup)).engine
          (work (before ++ .closed uri :: (past ++ [d])) (.new setup)).engine := by
  have hnew : (Moment.new setup).Reserved :=
    ⟨orderly_new setup, by simp [Moment.new, withRelay, Engine.new]⟩
  obtain ⟨hbefore, hcloses, hafter⟩ := meet_append.mp hmeet
  have hreserved : (work before (.new setup)).Reserved :=
    work_induction hnew hbefore fun _ _ h hmeets => reserved_perform h hmeets
  have hclears := clears_takeIn hreserved.orderly.engine
    (accounted_work False setup (meet_any before _) False.elim) hdone
  have hclosed := reserved_perform hreserved hcloses
  simp only [work_append, work_cons, work_nil]
  refine ⟨hclears, (unopened_work hclosed hafter hclears.unopened hopens).2.2,
    fun past d rest hsplit => ?_⟩
  subst hsplit
  obtain ⟨hpast, hmeets, -⟩ := meet_append.mp hafter
  simp only [mem_openedUris, not_exists, not_and] at hopens
  have hunopened : uri ∉ openedUris past := by
    rw [mem_openedUris]
    rintro ⟨d', hd', hopened⟩
    exact hopens d' (List.mem_append_left _ hd') hopened
  obtain ⟨hreserved', hnone, -⟩ := unopened_work hclosed hpast hclears.unopened hunopened
  exact leavesAlone_perform hreserved' hmeets hnone
    (hopens d (List.mem_append_right _ List.mem_cons_self))

/-- Two documents are of one file, and a call waits for the diagnostics of the
first. -/
def sharedFile : List Deed :=
  [.opened "file:///a.ts" "typescript" 1 "x", .opened "file:///%61.ts" "typescript" 1 "x",
    .check "d" "file:///a.ts", .plain .turn, .plain .job]

/-- A part of the check comes in late, and the diagnostics of the second document are
asked for. -/
def afterwards : List Deed :=
  [.plain (.receive (.obj (Relay.syntaxPart []).toFields)), .check "e" "file:///%61.ts",
    .plain .turn, .plain .job]

/-- The first document is closed in between. The next job has a check written, which
is the other document's. -/
theorem silence_past_closing_sharedFile :
    ((work sharedFile (.new Relay.syntaxOnly)).engine.relay 0).Listed "file:///a.ts" 1 ∧
      Clears "file:///a.ts" (work sharedFile (.new Relay.syntaxOnly)).engine
        (work (sharedFile ++ [.closed "file:///a.ts"]) (.new Relay.syntaxOnly)).engine ∧
      LeavesAlone "file:///a.ts"
        (work (sharedFile ++ .closed "file:///a.ts" :: afterwards) (.new Relay.syntaxOnly)).engine
        (work (sharedFile ++ .closed "file:///a.ts" :: (afterwards ++ [.plain .job]))
          (.new Relay.syntaxOnly)).engine ∧
      ∃ arguments, (work (sharedFile ++ .closed "file:///a.ts" :: (afterwards ++ [.plain .job]))
          (.new Relay.syntaxOnly)).engine.record =
        (work (sharedFile ++ .closed "file:///a.ts" :: afterwards)
          (.new Relay.syntaxOnly)).engine.record ++
          [(0, .sent ⟨5, Service.errorCheckName, arguments⟩)] := by
  have hdone : (((work sharedFile (.new Relay.syntaxOnly)).engine.relay 0).didClose
      "file:///a.ts").2 = none := by with_unfolding_all rfl
  have hmeet : Meet .reserved
      (sharedFile ++ .closed "file:///a.ts" :: (afterwards ++ [.plain .job]))
      (.new Relay.syntaxOnly) :=
    ⟨trivial, trivial, trivial, trivial, trivial, trivial, trivial, trivial, trivial, trivial,
      trivial, trivial⟩
  have hopens : "file:///a.ts" ∉ openedUris (afterwards ++ [.plain .job]) := List.not_mem_nil
  obtain ⟨hclears, -, halone⟩ := silence_past_closing Relay.syntaxOnly sharedFile
    (afterwards ++ [.plain .job]) "file:///a.ts" hmeet hdone hopens
  refine ⟨⟨⟨"/a.ts", 1, ["syntax"], [], [⟨3, 1, []⟩], [⟨1, false⟩], false, 0⟩,
    by with_unfolding_all rfl, List.mem_singleton_self _⟩, hclears,
    halone afterwards (.plain .job) [] rfl, Relay.checkArguments "/a.ts", by with_unfolding_all rfl⟩

end Engine

end LanguageRelay
