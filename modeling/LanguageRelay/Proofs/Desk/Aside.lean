import LanguageRelay.Proofs.Desk.Jobs
import LanguageRelay.Proofs.Desk.Processes
import LanguageRelay.Proofs.Desk.Station
import LanguageRelay.Proofs.Editing.Doings
import LanguageRelay.Proofs.Editing.Accounts
import LanguageRelay.Proofs.Relay.Discretion
/-!
# What goes on aside from the station

Most of what an engine does has nothing to do with its processes: calls that do not
start or stop one run on, end, are told of outcomes and cancelled. All that leaves
the station as it is (`Engine.Aside`). It brings no start any nearer either: that
takes a good response to what the relay said to introduce itself, which comes in as
a message and in no other way.
-/

namespace LanguageRelay

/-- What a call is at work on that waits for a command of a relay, or for its
process. -/
def Continuation.task? (i seq : Nat) : Continuation → Option Task
  | .startup h => some (.start h (if seq = 0 then none else some (i, seq)))
  | .answer _ => if seq = 0 then some (.stop i) else none

/-- What a call is at work on, by what it waits for. -/
def Stage.task? : Stage → Option Task
  | .asking i seq _ _ _ next => next.task? i seq
  | _ => none

/-- The command by which a relay introduces itself, if it was answered well. -/
def Continuation.approved? (i seq : Nat) (outcome : Option (Except Failure Json)) :
    Continuation → Option (Nat × Nat)
  | .startup _ => outcome.bind fun o => o.toOption.map fun _ => (i, seq)
  | .answer _ => none

/-- The same, by what the call waits for that wrote it. -/
def Stage.approved? : Stage → Option (Nat × Nat)
  | .asking i seq _ _ outcome next => next.approved? i seq outcome
  | _ => none

/-- The post of a call. -/
def Call.post? (id : Nat) (c : Call) : Option Post := c.stage.task?.map fun t => ⟨id, c.role, t⟩

/-- A call stays at work on the same, and needs nothing new. -/
structure Call.Keeps (heard : Nat × Nat → Prop) (c c' : Call) : Prop where
  role : c'.role = c.role
  task : c'.stage.task? = c.stage.task?
  claims : ∀ h, c'.stage.handler? = some h → c.stage.handler? = some h
  approved : ∀ p, c'.stage.approved? = some p → heard p ∨ c.stage.approved? = some p

/-- A call that waits for a command stays at work on the same while it does. -/
theorem Call.keeps_asking {heard : Nat × Nat → Prop} {i : Nat} {role : Role} {cancelled cancelled' : Bool} {seq : Nat} {a : Ask}
    {watch watch' : Watch} {outcome outcome' : Option (Except Failure Json)} {next : Continuation}
    (hheard : ∀ body, outcome' = some (.ok body) → heard (i, seq) ∨ outcome = outcome') :
    Call.Keeps heard ⟨role, .asking i seq a watch outcome next, cancelled⟩
      ⟨role, .asking i seq a watch' outcome' next, cancelled'⟩ where
  role := rfl
  task := rfl
  claims _ h := h
  approved p hp := by
    cases next with
    | answer after => cases hp
    | startup handler =>
      obtain ⟨o, ho, hp⟩ := Option.bind_eq_some_iff.mp hp
      obtain ⟨body, hbody, rfl⟩ := Option.map_eq_some_iff.mp hp
      cases o with
      | error f => cases hbody
      | ok body' =>
        refine (hheard body' ho).imp_right fun hsame => ?_
        simp [Stage.approved?, Continuation.approved?, hsame, ho, Except.toOption]

namespace Relay

/-- The relay has nothing left to pass on, what awaits a response is a command, and
nothing limits what the transport takes. -/
structure Tidy (r : Relay) : Prop where
  collected : r.outbox = []
  numbered : ∀ p ∈ r.link.pending, p.seq ≠ 0
  unlimited : r.link.limit = none

/-- **The operation passes on no good response**, and lists only commands. -/
structure Reticent (r r' : Relay) : Prop where
  numbered : (∀ p ∈ r.link.pending, p.seq ≠ 0) → ∀ p ∈ r'.link.pending, p.seq ≠ 0
  limit : r'.link.limit = r.link.limit
  unapproving : Adds (fun e => ∀ seq body, e ≠ .answered seq (.ok body)) r r'

variable {r r' : Relay}

theorem Discreet.reticent (h : Discreet r r') : Reticent r r' where
  numbered hr := h.pending ▸ hr
  limit := Link.limit_of_standing h.standing
  unapproving := h.unanswered.mono fun _ he seq _ => he seq _

theorem reticent_ask (name : String) (arguments : Json) (r : Relay) :
    Reticent r (r.ask name arguments).1 := by
  unfold ask
  simp only []
  split
  · exact (discreet_takeSeq r).reticent
  · split
    · exact (discreet_takeSeq r).reticent
    · refine ⟨fun hr p hp => ?_, rfl, [_], rfl, by simp⟩
      rcases List.mem_append.mp hp with hp | hp
      · exact hr p hp
      · rw [List.mem_singleton.mp hp]
        exact Nat.succ_ne_zero _

theorem seq_of_ask {name : String} {arguments : Json} {seq : Nat}
    (h : (r.ask name arguments).2 = .ok seq) : seq ≠ 0 := by
  unfold ask at h
  simp only [] at h
  split at h
  · cases h
  · split at h
    · cases h
    · exact Except.ok.inj h ▸ Nat.succ_ne_zero _

theorem reticent_disconnect (cause : Closure) (r : Relay) : Reticent r (r.disconnect cause) := by
  cases hup : r.link.closed with
  | some first =>
    rw [disconnect_of_closed (by simp [hup])]
    exact (Discreet.refl r).reticent
  | none =>
    refine ⟨fun _ p hp => ?_, by rw [disconnect_of_open hup], r.closing cause, ?_,
      fun e he seq body heq => ?_⟩
    · rw [disconnect_of_open hup] at hp
      cases hp
    · rw [disconnect_of_open hup]
      simp [closing]
    · cases (answered_mem_closing.mp (heq ▸ he)).2

/-- Of a tidy relay it passes on none at all. -/
theorem Reticent.silent (h : Reticent r r') (htidy : r.Tidy) (seq : Nat) (body : Json) :
    .answered seq (.ok body) ∉ r'.outbox := by
  obtain ⟨fx, hfx, hquiet⟩ := h.unapproving
  rw [hfx, htidy.collected]
  exact fun hmem => hquiet _ hmem seq body rfl

/-- The message is a good response to a command. -/
def Approves (message : Json) (seq : Nat) : Prop :=
  ∃ response, Service.Message.ofJson message = .ok (.response response) ∧
    response.requestSeq = seq ∧ response.success = true

/-- **A good response is passed on only if the message is one**, to a command. -/
theorem receive_approves (htidy : r.Tidy) (message : Json) :
    (∀ p ∈ (r.receive message).1.link.pending, p.seq ≠ 0) ∧
      (r.receive message).1.link.limit = r.link.limit ∧
      ∀ seq body, .answered seq (.ok body) ∈ (r.receive message).1.outbox →
        seq ≠ 0 ∧ Approves message seq := by
  rcases receive_cases message r with ⟨response, hresponse, heq⟩ | hnone
  · rw [heq]
    simp only [resolve]
    cases hfound : r.pendingFor? response.requestSeq with
    | none =>
      have hlogged := (discreet_log .warning (strayResponse response) r).reticent
      exact ⟨hlogged.numbered htidy.numbered, hlogged.limit, fun seq body hmem =>
        absurd hmem (hlogged.silent htidy seq body)⟩
    | some p =>
      have hp := List.mem_of_find?_eq_some hfound
      have hseq : (p.seq : Int) = response.requestSeq := by simpa using List.find?_some hfound
      have hnumbered : ∀ q ∈ (r.unlist p.seq).link.pending, q.seq ≠ 0 := fun q hq =>
        htidy.numbered q (List.mem_filter.mp hq).1
      have hcollected : (r.unlist p.seq).outbox = [] := htidy.collected
      by_cases hsettled : p.settled = true
      · simp only [hsettled, if_true]
        exact ⟨hnumbered, rfl, fun seq body hmem => by simp [hcollected] at hmem⟩
      · simp only [hsettled]
        refine ⟨hnumbered, rfl, fun seq body hmem => ?_⟩
        have hanswered : seq = p.seq ∧ .ok body = outcomeOf p.command response := by
          simpa [emit, hcollected] using hmem
        obtain ⟨rfl, hbody⟩ := hanswered
        refine ⟨htidy.numbered p hp, response, hresponse, hseq.symm, ?_⟩
        by_contra hbad
        rw [outcomeOf, if_neg hbad] at hbody
        split at hbody
        · split at hbody <;> cases hbody
        · cases hbody
  · have hreticent := (discreet_receive r hnone).reticent
    exact ⟨hreticent.numbered htidy.numbered, hreticent.limit, fun seq body hmem =>
      absurd hmem (hreticent.silent htidy seq body)⟩

end Relay

namespace Engine

variable {heard : Nat × Nat → Prop} {e e' e'' : Engine} {id i : Nat} {c : Call} {stage : Stage}

/-! ## The station of an engine -/

/-- The calls at work on a process. -/
def posts (e : Engine) : Multiset Post := e.calls.filterMap fun x => x.2.post? x.1

/-- What of an engine matters to its processes. -/
def station (e : Engine) : Station :=
  ⟨e.desk.current, e.desk.locked, e.desk.launches, e.relays.length, e.posts⟩

/-- The posts without that of a call. -/
theorem posts_erase (id : Nat) (e : Engine) :
    ({ e with calls := Table.erase id e.calls } : Engine).posts =
      e.posts.filter fun p => p.call ≠ id := by
  unfold posts
  rw [Multiset.filter_coe, List.filter_filterMap, Table.erase_eq_filter, List.filterMap_filter]
  congr 1
  refine List.filterMap_congr fun x _ => ?_
  by_cases hx : x.1 = id <;> cases htask : x.2.stage.task? <;>
    simp [Call.post?, Option.filter, hx, htask]

/-- **A call has its post, and no other call has.** -/
theorem posts_of_call (hsingle : (Table.keys e.calls).Nodup) (hcall : e.call? id = some c) :
    e.posts = ((c.post? id).toList : Multiset Post) + e.posts.filter fun p => p.call ≠ id := by
  rw [← posts_erase]
  have hperm := (Table.perm_erase hsingle (mem_of_call? hcall)).filterMap fun x => x.2.post? x.1
  rw [List.filterMap_cons] at hperm
  refine (Multiset.coe_eq_coe.mpr hperm).trans ?_
  cases c.post? id <;> simp [posts]

/-- The post of a call is there. -/
theorem mem_posts (hcall : e.call? id = some c) {task : Task} (htask : c.stage.task? = some task) :
    ⟨id, c.role, task⟩ ∈ e.posts :=
  Multiset.mem_coe.mpr (List.mem_filterMap.mpr
    ⟨(id, c), mem_of_call? hcall, by simp [Call.post?, htask]⟩)

/-- What is there under a call is its post. -/
theorem post_of_mem (hsingle : (Table.keys e.calls).Nodup) {p : Post} (hmem : p ∈ e.posts)
    (hcall : e.call? p.call = some c) : c.post? p.call = some p := by
  obtain ⟨⟨n, d⟩, hx, hpost⟩ := List.mem_filterMap.mp (Multiset.mem_coe.mp hmem)
  obtain ⟨task, -, rfl⟩ := Option.map_eq_some_iff.mp hpost
  obtain rfl : c = d := Option.some.inj
    (hcall.symm.trans ((Table.get?_eq_some_iff hsingle).mpr hx))
  exact hpost

/-- A call at work on nothing has no post. -/
theorem without_of_idle (hsingle : (Table.keys e.calls).Nodup) (hcall : e.call? id = some c)
    (hidle : c.stage.task? = none) : e.station.without id = e.station := by
  have hposts := posts_of_call hsingle hcall
  simp only [Call.post?, hidle, Option.map_none, Option.toList_none, Multiset.coe_nil,
    Multiset.zero_add] at hposts
  rw [Station.without, station, ← hposts]

/-- So it is at work on nothing where the station is the same. -/
theorem idle_of_station (hsingle : (Table.keys e.calls).Nodup) (hcall : e.call? id = some c)
    (hidle : c.stage.task? = none) (hstation : e'.station = e.station) {c' : Call}
    (hcall' : e'.call? id = some c') : c'.stage.task? = none := by
  cases htask : c'.stage.task? with
  | none => rfl
  | some task =>
    have hmem := mem_posts hcall' htask
    rw [show e'.posts = e.posts from congrArg Station.posts hstation] at hmem
    have hpost := post_of_mem hsingle hmem hcall
    simp [Call.post?, hidle] at hpost

/-- So has one that is not there. -/
theorem without_of_absent (hcall : e.call? id = none) : e.station.without id = e.station := by
  have hposts : (e.posts.filter fun p => p.call ≠ id) = e.posts := by
    refine Multiset.filter_eq_self.mpr fun p hp => ?_
    obtain ⟨x, hx, hpost⟩ := List.mem_filterMap.mp (Multiset.mem_coe.mp hp)
    obtain ⟨task, -, rfl⟩ := Option.map_eq_some_iff.mp hpost
    rintro rfl
    exact not_mem_of_call? hcall x.2 hx
  simp only [Station.without, station, hposts]

/-- **A call that waits anew** has the post of what it waits for. -/
theorem posts_await (hsingle : (Table.keys e.calls).Nodup) (hcall : e.call? id = some c)
    (stage : Stage) : (e.await id stage).posts =
      ((Call.post? id ⟨c.role, stage, false⟩).toList : Multiset Post) +
        e.posts.filter fun p => p.call ≠ id := by
  have hkeys : (Table.keys (e.await id stage).calls).Nodup := by simpa [await] using hsingle
  rw [posts_of_call hkeys (call?_await hcall stage), ← posts_erase, ← posts_erase]
  simp only [await, Table.erase_update]

/-! ## Going along -/

/-- The engine is tidy: calls are numbered as they are made, and the relays are
tidy. -/
structure Tidy (e : Engine) : Prop where
  single : (Table.keys e.calls).Nodup
  made : ∀ n ∈ Table.keys e.calls, n ≤ e.lastCall
  relays : ∀ r ∈ e.relays, r.Tidy

theorem Tidy.relay (h : e.Tidy) (i : Nat) : (e.relay i).Tidy := by
  cases hi : e.relays[i]? with
  | none =>
    simp only [Engine.relay, hi]
    exact ⟨rfl, fun p hp => absurd hp List.not_mem_nil, rfl⟩
  | some r =>
    simp only [Engine.relay, hi]
    exact h.relays r (List.mem_of_getElem? hi)

/-- **What goes along**: what was done stays on record, and nobody comes who needs
the analysis server. No command by which a relay introduces itself is answered well,
but those of which good answers are heard. -/
structure Along (heard : Nat × Nat → Prop) (e e' : Engine) : Prop where
  tidy : e'.Tidy
  record : e.record <+: e'.record
  claims : ∀ x ∈ e'.calls, ∀ h, x.2.stage.handler? = some h →
    ∃ c, (x.1, c) ∈ e.calls ∧ c.role = x.2.role ∧ c.stage.handler? = some h
  approved : ∀ x ∈ e'.calls, ∀ p, x.2.stage.approved? = some p →
    heard p ∨ ∃ y ∈ e.calls, y.2.stage.approved? = some p

/-- **What goes on aside from the station**, which stays as it is. -/
structure Aside (heard : Nat × Nat → Prop) (e e' : Engine) : Prop extends Along heard e e' where
  station : e'.station = e.station

/-- The same, but a call gives up its post, if it has one. -/
structure Frees (heard : Nat × Nat → Prop) (id : Nat) (e e' : Engine) : Prop
    extends Along heard e e' where
  station : e'.station = e.station.without id

theorem Along.trans (h : Along heard e e') (h' : Along heard e' e'') : Along heard e e'' where
  tidy := h'.tidy
  record := h.record.trans h'.record
  claims x hx handler hhandler := by
    obtain ⟨c', hc', hrole', hclaim'⟩ := h'.claims x hx handler hhandler
    obtain ⟨c, hc, hrole, hclaim⟩ := h.claims _ hc' handler hclaim'
    exact ⟨c, hc, hrole.trans hrole', hclaim⟩
  approved x hx p hp := by
    rcases h'.approved x hx p hp with hheard | ⟨y, hy, hp⟩
    · exact .inl hheard
    · exact h.approved y hy p hp

theorem Aside.trans (h : Aside heard e e') (h' : Aside heard e' e'') : Aside heard e e'' :=
  ⟨h.toAlong.trans h'.toAlong, h'.station.trans h.station⟩

theorem Aside.frees (h : Aside heard e e') (h' : Frees heard id e' e'') : Frees heard id e e'' :=
  ⟨h.toAlong.trans h'.toAlong, h.station ▸ h'.station⟩

theorem Frees.aside (h : Frees heard id e e') (h' : Aside heard e' e'') : Frees heard id e e'' :=
  ⟨h.toAlong.trans h'.toAlong, h'.station.trans h.station⟩

/-- A call without a post gives up none. -/
theorem Frees.of_idle (h : Frees heard id e e') (ht : e.Tidy) (hcall : e.call? id = some c)
    (hidle : c.stage.task? = none) : Aside heard e e' :=
  ⟨h.toAlong, h.station.trans (without_of_idle ht.single hcall hidle)⟩

/-- Where calls and relays are the same, only the record matters. -/
theorem Along.of_same (h : e.Tidy) (hcalls : e'.calls = e.calls) (hlast : e'.lastCall = e.lastCall)
    (hrelays : e'.relays = e.relays) (hrecord : e.record <+: e'.record) : Along heard e e' where
  tidy := ⟨hcalls ▸ h.single, hcalls ▸ hlast ▸ h.made, hrelays ▸ h.relays⟩
  record := hrecord
  claims x hx _ hhandler := ⟨x.2, hcalls ▸ hx, rfl, hhandler⟩
  approved x hx _ hp := .inr ⟨x, hcalls ▸ hx, hp⟩

theorem Aside.of_same (h : e.Tidy) (hcalls : e'.calls = e.calls) (hlast : e'.lastCall = e.lastCall)
    (hrelays : e'.relays = e.relays) (hrecord : e.record <+: e'.record)
    (hdesk : e'.desk.current = e.desk.current ∧ e'.desk.locked = e.desk.locked ∧
      e'.desk.launches = e.desk.launches) : Aside heard e e' where
  toAlong := .of_same h hcalls hlast hrelays hrecord
  station := by simp only [Engine.station, posts, hcalls, hrelays, hdesk]

theorem Aside.refl (h : e.Tidy) : Aside heard e e :=
  .of_same h rfl rfl rfl (List.prefix_refl _) ⟨rfl, rfl, rfl⟩

theorem aside_post (h : e.Tidy) (job : Job) : Aside heard e (e.post job) :=
  .of_same h rfl rfl rfl (List.prefix_refl _) ⟨rfl, rfl, rfl⟩

theorem aside_log (h : e.Tidy) (i : Nat) (level : LogLevel) (text : String) :
    Aside heard e (e.log i level text) :=
  .of_same h rfl rfl rfl (List.prefix_append ..) ⟨rfl, rfl, rfl⟩

theorem aside_agenda (h : e.Tidy) (agenda : Agenda Job) : Aside heard e { e with agenda } :=
  .of_same h rfl rfl rfl (List.prefix_refl _) ⟨rfl, rfl, rfl⟩

theorem aside_wakeFirst (h : e.Tidy) : Aside heard e e.wakeFirst := by
  unfold wakeFirst
  split
  · exact .of_same h rfl rfl rfl (List.prefix_refl _) ⟨rfl, rfl, rfl⟩
  · exact .refl h

/-- A relay is changed by an operation that passes on nothing. -/
theorem aside_setRelay (h : e.Tidy) (i : Nat) {r : Relay} (hr : r.Tidy) :
    Aside heard e (e.setRelay i r) where
  tidy := ⟨h.single, h.made, fun r' hr' =>
    (List.mem_or_eq_of_mem_set hr').elim (h.relays r') fun heq => heq ▸ hr⟩
  record := List.prefix_refl _
  claims x hx _ hhandler := ⟨x.2, hx, rfl, hhandler⟩
  approved x hx _ hp := .inr ⟨x, hx, hp⟩
  station := by simp only [Engine.station, setRelay, posts, List.length_set]

theorem aside_withdraw (h : e.Tidy) (i seq : Nat) :
    Aside heard e (e.mapRelay i (Relay.withdraw seq)) := by
  refine aside_setRelay h i ⟨(h.relay i).collected, fun p hp => ?_, (h.relay i).unlimited⟩
  obtain ⟨q, hq, rfl⟩ := List.mem_map.mp hp
  have hnumber : (q.withdraw seq).seq = q.seq := by
    unfold Pending.withdraw
    split <;> rfl
  exact hnumber ▸ (h.relay i).numbered q hq

theorem aside_withdrawWaiter (h : e.Tidy) (i waiter : Nat) :
    Aside heard e (e.mapRelay i (Relay.withdrawWaiter waiter)) :=
  aside_setRelay h i ⟨(h.relay i).collected, (h.relay i).numbered, (h.relay i).unlimited⟩

/-- A call has done with its command. -/
theorem aside_leave (h : e.Tidy) (id i seq : Nat) : Aside heard e (e.leave id i seq) := by
  have hunlisted : Aside heard e (e.mapRelay i (Relay.unlist seq)) :=
    aside_setRelay h i ⟨(h.relay i).collected, fun p hp =>
      (h.relay i).numbered p (List.mem_filter.mp hp).1, (h.relay i).unlimited⟩
  exact hunlisted.trans (aside_agenda hunlisted.tidy _)

/-! ## Calls that are changed -/

theorem aside_update (h : e.Tidy) (id : Nat) {f : Call → Call}
    (hf : ∀ c, e.call? id = some c → Call.Keeps heard c (f c)) :
    Aside heard e { e with calls := Table.update id f e.calls } where
  tidy := ⟨by simpa using h.single, by simpa using h.made, h.relays⟩
  record := List.prefix_refl _
  claims x hx handler hhandler := by
    rcases Table.mem_update hx with hx | ⟨c, hc, rfl⟩
    · exact ⟨x.2, hx, rfl, hhandler⟩
    · have hkeeps := hf c ((Table.get?_eq_some_iff h.single).mpr hc)
      exact ⟨c, hc, hkeeps.role.symm, hkeeps.claims _ hhandler⟩
  approved x hx p hp := by
    rcases Table.mem_update hx with hx | ⟨c, hc, rfl⟩
    · exact .inr ⟨x, hx, hp⟩
    · have hkeeps := hf c ((Table.get?_eq_some_iff h.single).mpr hc)
      exact (hkeeps.approved p hp).imp_right fun hp => ⟨_, hc, hp⟩
  station := by
    have hposts : ({ e with calls := Table.update id f e.calls } : Engine).posts = e.posts := by
      refine congrArg Multiset.ofList (Table.filterMap_update fun c hc => ?_)
      have hkeeps := hf c hc
      simp only [Call.post?, hkeeps.role, hkeeps.task]
    simp only [Engine.station, hposts]

theorem aside_amend (h : e.Tidy) (hcall : e.call? id = some c) {stage : Stage}
    (hkeeps : Call.Keeps heard c { c with stage }) : Aside heard e (e.amend id stage) :=
  aside_update h id fun d hd => by
    obtain rfl : c = d := Option.some.inj (hcall.symm.trans hd)
    exact hkeeps

theorem aside_markCancelled (h : e.Tidy) (id : Nat) : Aside heard e (e.markCancelled id) :=
  aside_update h id fun _ _ => ⟨rfl, rfl, fun _ h => h, fun _ h => .inr h⟩

/-- **A call that ends gives up its post.** -/
theorem frees_finish (h : e.Tidy) (id : Nat) (outcome : Except Failure Answer) :
    Frees heard id e (e.finish id outcome) := by
  have herased : Frees heard id e { e with calls := Table.erase id e.calls } :=
    { tidy := ⟨Table.nodup_keys_erase h.single, fun n hn => by
          obtain ⟨x, hx, rfl⟩ := List.mem_map.mp hn
          exact h.made _ (List.mem_map_of_mem (Table.mem_erase_iff.mp hx).1), h.relays⟩
      record := List.prefix_refl _
      claims := fun x hx _ hhandler => ⟨x.2, (Table.mem_erase_iff.mp hx).1, rfl, hhandler⟩
      approved := fun x hx _ hp => .inr ⟨x, (Table.mem_erase_iff.mp hx).1, hp⟩
      station := by
        have hposts := posts_erase id e
        simp only [Engine.station, Station.without, hposts] }
  have hkeep : ∀ answer (e : Engine), e.Tidy → Aside heard e (e.keep id answer).1 := by
    intro answer e h
    unfold keep
    split
    · exact .of_same h rfl rfl rfl (List.prefix_refl _) ⟨rfl, rfl, rfl⟩
    · exact .refl h
    · split
      · exact .refl h
      · exact .of_same h rfl rfl rfl (List.prefix_refl _) ⟨rfl, rfl, rfl⟩
    · exact .refl h
  have hreport : ∀ role outcome (e : Engine), e.Tidy → Aside heard e (e.report role outcome) := by
    intro role outcome e h
    cases role <;> exact .of_same h rfl rfl rfl (List.prefix_refl _) ⟨rfl, rfl, rfl⟩
  unfold finish
  split
  · rename_i hcall
    exact ⟨(Aside.refl h).toAlong, (without_of_absent hcall).symm⟩
  · split
    · exact herased.aside (hreport _ _ _ herased.tidy)
    · rename_i answer
      have hkept := herased.aside (hkeep answer _ herased.tidy)
      exact hkept.aside (hreport _ _ _ hkept.tidy)

/-- So does one that waits for what is no process. -/
theorem frees_await (h : e.Tidy) {stage : Stage} (htask : stage.task? = none)
    (hhandler : stage.handler? = none) (happroved : stage.approved? = none) :
    Frees heard id e (e.await id stage) := by
  cases hcall : e.call? id with
  | none =>
    have hsame : Aside heard e (e.await id stage) := aside_update h id fun c hc => by
      rw [hcall] at hc
      cases hc
    exact ⟨hsame.toAlong, hsame.station.trans (without_of_absent hcall).symm⟩
  | some c =>
    have hposts := posts_await h.single hcall stage
    refine ⟨⟨⟨by simpa [await] using h.single, by simpa [await] using h.made, h.relays⟩,
      List.prefix_refl _, fun x hx handler hclaim => ?_, fun x hx p hp => ?_⟩, ?_⟩
    · rcases Table.mem_update hx with hx | ⟨d, hd, rfl⟩
      · exact ⟨x.2, hx, rfl, hclaim⟩
      · rw [hhandler] at hclaim
        cases hclaim
    · rcases Table.mem_update hx with hx | ⟨d, hd, rfl⟩
      · exact .inr ⟨x, hx, hp⟩
      · rw [happroved] at hp
        cases hp
    · simp only [Engine.station, Station.without, hposts, Call.post?, htask]
      simp [await]

/-! ## What a relay does -/

theorem aside_answered (h : e.Tidy) (i seq : Nat) (outcome : Except Failure Json)
    (hheard : ∀ body, outcome = .ok body → heard (i, seq)) :
    Aside heard e (e.answered i seq outcome) := by
  unfold answered
  split
  · exact .refl h
  · rename_i id c hwatcher
    have hcall : e.call? id = some c :=
      (Table.get?_eq_some_iff h.single).mpr (List.mem_of_find?_eq_some hwatcher)
    split
    · rename_i relay s a watch next hstage
      obtain ⟨role, stage, cancelled⟩ := c
      obtain rfl : stage = _ := hstage
      obtain ⟨rfl, rfl⟩ : relay = i ∧ s = seq := by simpa using List.find?_some hwatcher
      have hamended : Aside heard e (e.amend id (.asking relay s a watch (some outcome) next)) :=
        aside_amend h hcall (Call.keeps_asking fun body hbody =>
          .inl (hheard body (Option.some.inj hbody)))
      simp only []
      split
      · exact hamended.trans (aside_post hamended.tidy _)
      · exact hamended.trans (aside_post hamended.tidy _)
    · exact .refl h

theorem aside_released (h : e.Tidy) (waiter : Nat) (outcome : Except Failure Unit) :
    Aside heard e (e.released waiter outcome) := by
  unfold released
  split
  · rename_i relay _ hcall
    have hamended : Aside heard e (e.amend waiter (.checking relay (some outcome))) :=
      aside_amend h hcall ⟨rfl, rfl, fun _ h => h, fun _ h => .inr h⟩
    exact hamended.trans (aside_post hamended.tidy _)
  · exact .refl h

theorem aside_deliver (h : e.Tidy) (i : Nat) (effect : Effect)
    (hheard : ∀ seq body, effect = .answered seq (.ok body) → heard (i, seq)) :
    Aside heard e (e.deliver i effect) := by
  cases effect with
  | answered seq outcome =>
    exact aside_answered h i seq outcome fun body hbody => hheard seq body (by rw [hbody])
  | released waiter outcome => exact aside_released h waiter outcome
  | armed uri timer => exact aside_agenda h _
  | disarmed uri timer => exact aside_agenda h _
  | _ => exact .of_same h rfl rfl rfl (List.prefix_append ..) ⟨rfl, rfl, rfl⟩

/-- **What a relay does is done aside from the station**, and good answers are heard
where it passes them on. -/
theorem aside_operate {α : Type} (h : e.Tidy) (i : Nat) {f : Relay → Relay × α}
    (hnumbered : ∀ p ∈ (f (e.relay i)).1.link.pending, p.seq ≠ 0)
    (hlimit : (f (e.relay i)).1.link.limit = (e.relay i).link.limit)
    (hheard : ∀ seq body, .answered seq (.ok body) ∈ (f (e.relay i)).1.outbox → heard (i, seq)) :
    Aside heard e (e.operate i f).1 := by
  have hfold : ∀ (fx : List Effect) (e : Engine), e.Tidy →
      (∀ seq body, .answered seq (.ok body) ∈ fx → heard (i, seq)) →
      Aside heard e (fx.foldl (deliver i) e) := by
    intro fx
    induction fx with
    | nil => exact fun e h _ => .refl h
    | cons effect rest ih =>
      intro e h hheard
      have hdelivered := aside_deliver h i effect fun seq body heq =>
        hheard seq body (heq ▸ List.mem_cons_self)
      exact hdelivered.trans (ih _ hdelivered.tidy fun seq body hmem =>
        hheard seq body (List.mem_cons_of_mem _ hmem))
  have hset : Aside heard _ _ := aside_setRelay h i (r := { (f (e.relay i)).1 with outbox := [] })
    ⟨rfl, hnumbered, hlimit.trans (h.relay i).unlimited⟩
  exact hset.trans (hfold _ _ hset.tidy hheard)

theorem aside_reticent {α : Type} (h : e.Tidy) (i : Nat) {f : Relay → Relay × α}
    (hf : ∀ r, Relay.Reticent r (f r).1) : Aside heard e (e.operate i f).1 :=
  aside_operate h i ((hf _).numbered (h.relay i).numbered) (hf _).limit fun seq body hmem =>
    absurd hmem ((hf _).silent (h.relay i) seq body)

theorem aside_discreet {α : Type} (h : e.Tidy) (i : Nat) {f : Relay → Relay × α}
    (hf : ∀ r, Relay.Discreet r (f r).1) : Aside heard e (e.operate i f).1 :=
  aside_reticent h i fun r => (hf r).reticent

theorem aside_disconnect (h : e.Tidy) (i : Nat) (cause : Closure) :
    Aside heard e (e.operate i fun r => (r.disconnect cause, ())).1 :=
  aside_reticent h i (f := fun r => (r.disconnect cause, ())) (Relay.reticent_disconnect cause)

/-! ## What is done for a call -/

/-- A call that waits for a command to be answered is at work on no process. -/
theorem frees_asking (h : e.Tidy) (id i : Nat) {seq : Nat} (hseq : seq ≠ 0) (a : Ask) (watch : Watch)
    (outcome : Option (Except Failure Json)) (after : After) :
    Frees heard id e (e.await id (.asking i seq a watch outcome (.answer after))) :=
  frees_await h (if_neg hseq) rfl rfl

/-- A call that writes a command gives up its post, unless it starts the analysis
server. -/
theorem frees_ask (h : e.Tidy) (id i : Nat) (a : Ask) (after : After) :
    Frees heard id e (e.ask id i a (.answer after)) := by
  have hwritten : Aside heard e (e.operate i (Relay.ask a.command a.arguments)).1 :=
    aside_reticent h i (Relay.reticent_ask a.command a.arguments)
  have hnumber : ∀ seq, (e.operate i (Relay.ask a.command a.arguments)).2 = .ok seq → seq ≠ 0 :=
    fun seq hseq => Relay.seq_of_ask (r := e.relay i) hseq
  unfold ask
  generalize e.operate i (Relay.ask a.command a.arguments) = written at hwritten hnumber
  obtain ⟨e', result⟩ := written
  cases result with
  | error f =>
    simp only [fail]
    exact hwritten.frees (frees_finish hwritten.tidy id _)
  | ok seq =>
    have hseq : seq ≠ 0 := hnumber seq rfl
    simp only []
    split
    · exact hwritten.frees (frees_asking hwritten.tidy id i hseq ..)
    · rename_i window _
      split
      · have hwithdrawn := hwritten.trans (aside_withdraw hwritten.tidy i seq)
        have hwaits := hwithdrawn.frees (frees_asking hwithdrawn.tidy id i hseq a
          (.ending .timedOut) (some (.error .cancelled)) after)
        exact hwaits.aside (aside_post hwaits.tidy _)
      · have hset := hwritten.trans
          (aside_agenda hwritten.tidy (e'.agenda.setTimer window.nanos (.expire id seq)))
        exact hset.frees (frees_asking hset.tidy id i hseq ..)

theorem frees_query (h : e.Tidy) (id i : Nat) (q : Query) : Frees heard id e (e.query id i q) := by
  unfold query
  split
  · exact frees_finish h id _
  · exact frees_ask h id i _ _

theorem frees_check (h : e.Tidy) (id i : Nat) (uri : String) :
    Frees heard id e (e.check id i uri) := by
  have hasked : Aside heard e (e.operate i (Relay.requestCheck uri id)).1 :=
    aside_discreet h i (Relay.discreet_requestCheck uri id)
  unfold check
  split
  all_goals
    rename_i heq
    rw [heq] at hasked
  · exact hasked.frees (frees_finish hasked.tidy id _)
  · exact hasked.frees (frees_finish hasked.tidy id _)
  · exact hasked.frees (frees_await hasked.tidy rfl rfl rfl)

/-- A call that is made is at work on nothing, and has heard of nothing. -/
theorem spawned (h : e.Tidy) (role : Role) (work : Work) : (e.spawn role work).Tidy ∧
    (e.spawn role work).station = e.station ∧
    ∀ x ∈ (e.spawn role work).calls,
      x = (e.lastCall + 1, ⟨role, .created work, false⟩) ∨ x ∈ e.calls := by
  have hcalls := calls_spawn (fun x hx => h.made x.1 (List.mem_map_of_mem hx)) role work
  refine ⟨⟨Table.nodup_keys_put h.single, fun n hn => ?_, h.relays⟩, ?_, fun x hx =>
    Table.mem_put hx⟩
  · rcases Table.mem_keys_put.mp hn with rfl | hn
    · exact Nat.le_refl _
    · exact Nat.le_succ_of_le (h.made n hn)
  · have hposts : (e.spawn role work).posts = e.posts := by
      simp [posts, hcalls, Call.post?, Stage.task?]
    simp only [station, hposts]
    rfl

theorem aside_spawn (h : e.Tidy) {work : Work} (hwork : (Stage.created work).handler? = none)
    (role : Role) : Aside heard e (e.spawn role work) := by
  obtain ⟨htidy, hstation, hcalls⟩ := spawned h role work
  refine ⟨⟨htidy, List.prefix_refl _, fun x hx handler hhandler => ?_, fun x hx p hp => ?_⟩,
    hstation⟩
  · rcases hcalls x hx with rfl | hx
    · exact absurd (hwork.symm.trans hhandler) nofun
    · exact ⟨x.2, hx, rfl, hhandler⟩
  · rcases hcalls x hx with rfl | hx
    · cases hp
    · exact .inr ⟨x, hx, hp⟩

theorem aside_spawnChecks (h : e.Tidy) (whole i : Nat) (uris : List String) :
    Aside heard e (e.spawnChecks whole i uris) := by
  induction uris generalizing e with
  | nil => exact .refl h
  | cons uri rest ih =>
    have hspawned : Aside heard e (e.spawn (.part whole) (.check i uri)) := aside_spawn h rfl _
    exact hspawned.trans (ih hspawned.tidy)

theorem frees_checkAll (h : e.Tidy) (id i : Nat) : Frees heard id e (e.checkAll id i) := by
  unfold checkAll
  simp only []
  split
  · exact frees_finish h id _
  · have hspawned : Aside heard e (e.spawnChecks id i (e.relay i).uris) := aside_spawnChecks h id i _
    exact hspawned.frees (frees_await hspawned.tidy rfl rfl rfl)

theorem frees_perform (h : e.Tidy) (id i : Nat) {f : Relay → Relay × Option Failure}
    (hf : ∀ r, Relay.Discreet r (f r).1) : Frees heard id e (e.perform id i f) := by
  have hdone : Aside heard e (e.operate i f).1 := aside_discreet h i hf
  unfold perform
  split
  all_goals
    rename_i heq
    rw [heq] at hdone
    exact hdone.frees (frees_finish hdone.tidy id _)

/-- **A handler that is served** is at work on no process, unless it is a shutdown. -/
theorem frees_serve (h : e.Tidy) {handler : Handler} (hne : handler ≠ .shutdown) (id i : Nat) :
    Frees heard id e (e.serve id i handler) := by
  unfold serve
  split
  · exact frees_finish h id _
  · exact absurd rfl hne
  · exact frees_perform h id i (Relay.discreet_didOpen _ _ _ _)
  · exact frees_perform h id i (Relay.discreet_didChange _ _ _)
  · exact frees_perform h id i (Relay.discreet_didClose _)
  · exact frees_query h id i _
  · exact frees_check h id i _
  · exact frees_checkAll h id i

/-! ## Jobs that are for no call -/

theorem aside_passOn (h : e.Tidy) (id seq : Nat) : Aside heard e (e.passOn id seq) := by
  unfold passOn
  split
  · rename_i i s a watch outcome next cancelled hcall
    split
    · split
      · have hamended : Aside heard e (e.amend id (.asking i s a (.windowed .raised) outcome next)) :=
          aside_amend h hcall (Call.keeps_asking fun _ _ => .inr rfl)
        exact hamended.trans (aside_post hamended.tidy _)
      · exact aside_post h _
      · exact .refl h
    · exact .refl h
  · exact .refl h

theorem aside_expire (h : e.Tidy) (id seq : Nat) : Aside heard e (e.expire id seq) := by
  unfold expire
  split
  · rename_i i s a outcome next cancelled hcall
    split
    · have hamended : Aside heard e (e.amend id (.asking i s a (.windowed .raised) outcome next)) :=
        aside_amend h hcall (Call.keeps_asking fun _ _ => .inr rfl)
      exact hamended.trans (aside_post hamended.tidy _)
    · exact .refl h
  · exact .refl h

theorem aside_fire (h : e.Tidy) (i : Nat) (uri : String) (timer : Nat) :
    Aside heard e (e.fire i uri timer) := by
  have hfired : Aside heard e (e.operate i (Relay.fire uri timer)).1 :=
    aside_discreet h i (Relay.discreet_fire uri timer)
  unfold fire
  split
  all_goals
    rename_i heq
    rw [heq] at hfired
  · exact hfired.trans (aside_spawn hfired.tidy rfl _)
  · exact hfired

/-- A call that is made of others is at work on no process. -/
theorem aside_gathering (h : e.Tidy) {role : Role} {parts : List Nat} {left : Nat}
    {outcome : Option (Except Failure Unit)} {cancelled marked : Bool}
    (hcall : e.call? id = some ⟨role, .gathering parts left outcome cancelled, marked⟩)
    (left' : Nat) (outcome' : Option (Except Failure Unit)) (cancelled' : Bool) :
    Aside heard e (e.amend id (.gathering parts left' outcome' cancelled')) :=
  aside_amend h hcall ⟨rfl, rfl, fun _ h => h, fun _ h => .inr h⟩

theorem aside_partEnded (h : e.Tidy) (whole : Nat) (outcome : Except Failure Unit) :
    Aside heard e (e.partEnded whole outcome) := by
  unfold partEnded
  split
  · rename_i hcall
    have hamended : ∀ left outcome cancelled,
        Aside heard e (e.amend whole (.gathering _ left outcome cancelled)) :=
      aside_gathering h hcall
    split
    · exact (hamended _ _ _).trans (aside_post (hamended _ _ _).tidy _)
    · split
      · exact (hamended _ _ _).trans (aside_post (hamended _ _ _).tidy _)
      · exact hamended _ _ _
  · exact .refl h

theorem aside_checkEnded (h : e.Tidy) (i : Nat) (outcome : Except Failure Unit) :
    Aside heard e (e.checkEnded i outcome) := by
  unfold checkEnded
  split
  · exact .refl h
  · exact .refl h
  · exact aside_log h _ _ _

/-! ## Cancelling -/

theorem aside_cancelSimple (h : e.Tidy) (id : Nat) : Aside heard e (e.cancelSimple id) := by
  unfold cancelSimple
  split
  · exact .refl h
  · rename_i c hcall
    obtain ⟨role, stage, cancelled⟩ := c
    have htold : ∀ {e' : Engine} {stage' : Stage}, Aside heard e e' →
        e'.call? id = some ⟨role, stage, cancelled⟩ →
        Call.Keeps heard ⟨role, stage, cancelled⟩ ⟨role, stage', cancelled⟩ →
        Aside heard e ((e'.amend id stage').post (.resume id)) := by
      intro e' stage' haside hcall' hkeeps
      have hamended := haside.trans (aside_amend haside.tidy hcall' hkeeps)
      exact hamended.trans (aside_post hamended.tidy _)
    simp only []
    split
    · exact htold (aside_withdraw h _ _) hcall (Call.keeps_asking nofun)
    · exact htold (.refl h) hcall (Call.keeps_asking fun _ _ => .inr rfl)
    · exact htold (aside_withdrawWaiter h _ _) hcall ⟨rfl, rfl, fun _ h => h, fun _ h => .inr h⟩
    · split
      · exact .of_same h rfl rfl rfl (List.prefix_refl _) ⟨rfl, rfl, rfl⟩
      · exact aside_markCancelled h id
    · exact aside_markCancelled h id

theorem aside_cancel (h : e.Tidy) (id : Nat) : Aside heard e (e.cancel id) := by
  unfold cancel
  split
  · rename_i parts left marked _ hcall
    have hparts : ∀ (running : List Nat) (e : Engine), e.Tidy →
        Aside heard e (running.foldl (fun e p => e.cancelSimple p) e) := by
      intro running
      induction running with
      | nil => exact fun e h => .refl h
      | cons p rest ih =>
        intro e h
        have hcancelled : Aside heard _ _ := aside_cancelSimple h p
        exact hcancelled.trans (ih _ hcancelled.tidy)
    simp only []
    split
    · exact aside_markCancelled h id
    · have hcancelled := hparts (parts.filter fun p => (e.call? p).isSome) e h
      -- the whole was at work on nothing, so it is while its parts are cancelled
      refine hcancelled.trans (aside_update hcancelled.tidy id fun d hd =>
        ⟨rfl, (idle_of_station h.single hcall rfl hcancelled.station hd).symm, ?_, ?_⟩)
      · exact fun _ hclaim => absurd hclaim (by simp [Stage.handler?])
      · exact fun _ hheard => absurd hheard (by simp [Stage.approved?])
  · exact aside_cancelSimple h id

end Engine

end LanguageRelay
