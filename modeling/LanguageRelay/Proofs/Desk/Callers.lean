import LanguageRelay.Proofs.Desk.Hall
import LanguageRelay.Proofs.Engine.Bookkeeping
/-!
# Those who come to the desk

An engine is a hall, with the jobs left of a turn and perhaps one call that is
*out*: it is about to go on, and has left the hall until it waits anew. What
goes on away from the desk (`Engine.Away`) leaves the hall tended: whatever a
relay does, whoever is told of it, and how calls come to wait for something
else.
-/

namespace LanguageRelay

/-- What is seen of a call in the hall. -/
def Call.seen (id : Nat) (c : Call) : Caller := ⟨id, c.role, c.stage.place, c.stage.handler?⟩

/-- A call at this stage is seen in the hall as at the other. -/
def Stage.SameAs (stage stage' : Stage) : Prop :=
  stage.place = stage'.place ∧ stage.handler? = stage'.handler?

namespace Engine

/-- The calls as they are seen in the hall. -/
def callers (e : Engine) : List Caller :=
  e.calls.map fun x => x.2.seen x.1

/-- The hall of an engine that has some jobs of a turn left, less the call that
is out. -/
def hall (out : Option Nat) (todo : List Job) (e : Engine) : Hall where
  callers := {c | c ∈ e.callers ∧ out ≠ some c.number}
  made := e.lastCall
  jobs := todo ++ e.agenda.ready
  timers := e.agenda.timers
  line := e.desk.line
  locked := e.desk.locked
  current := e.desk.current
  launches := e.desk.launches.length
  ended := e.ended

/-- **The engine tends its hall.** -/
structure Tends (called : List (Nat × Handler)) (served : List Serving)
    (roll : List (Nat × String)) (out : Option Nat) (todo : List Job) (e : Engine) : Prop where
  single : (Table.keys e.calls).Nodup
  /-- Whoever needs the analysis server, or was served, was called for that. -/
  claims : ∀ c ∈ e.callers, ∀ h, c.handler? = some h → (c.number, h) ∈ called
  granted : ∀ s ∈ served, (s.call, s.handler) ∈ called
  listed : (called.map Prod.fst).Pairwise (· < ·) ∧ ∀ c ∈ called, c.1 ≤ e.lastCall
  outside : ∀ id, out = some id → id ≤ e.lastCall
  tended : (e.hall out todo).Tended served roll
  vacant : (e.hall out todo).Vacant

/-- **What is done away from the desk**: nobody comes, leaves or moves, and
nobody is made to begin. -/
structure Away (e e' : Engine) : Prop where
  callers : e'.callers = e.callers
  made : e'.lastCall = e.lastCall
  line : e'.desk.line = e.desk.line
  locked : e'.desk.locked = e.desk.locked
  current : e'.desk.current = e.desk.current
  launches : e'.desk.launches.length = e.desk.launches.length
  ready : ∃ js, e'.agenda.ready = e.agenda.ready ++ js ∧
    ∀ id, .resume id ∈ js → ∃ c ∈ e.callers, c.number = id ∧ c.place ≠ .fresh
  timers : ∀ t ∈ e'.agenda.timers, t ∈ e.agenda.timers ∨ ∀ id, t.job ≠ .resume id
  ended : ∃ more, e'.ended = e.ended ++ more

variable {called : List (Nat × Handler)} {served : List Serving} {roll : List (Nat × String)}
variable {out : Option Nat} {todo : List Job} {e e' e'' : Engine} {id : Nat} {c : Call}

/-! ## The calls seen -/

theorem keys_callers (e : Engine) : Table.keys e.calls = e.callers.map Caller.number := by
  simp [Table.keys, callers, Call.seen]

theorem mem_callers (h : e.call? id = some c) : c.seen id ∈ e.callers :=
  List.mem_map.mpr ⟨(id, c), mem_of_call? h, rfl⟩

theorem mem_hall (h : e.call? id = some c) : c.seen id ∈ (e.hall none todo).callers :=
  ⟨mem_callers h, nofun⟩

/-- Each call is seen once. -/
theorem eq_of_number (hsingle : (Table.keys e.calls).Nodup) {d d' : Caller} (hd : d ∈ e.callers)
    (hd' : d' ∈ e.callers) (hnumber : d.number = d'.number) : d = d' :=
  List.inj_on_of_nodup_map (keys_callers e ▸ hsingle) hd hd' hnumber

/-- A call that is changed is seen as before, if its place is the same. -/
theorem callers_update {f : Call → Call}
    (hf : ∀ c, e.call? id = some c → (f c).role = c.role ∧ (f c).stage.SameAs c.stage) :
    ({ e with calls := Table.update id f e.calls } : Engine).callers = e.callers := by
  unfold call? at hf
  unfold callers
  simp only
  generalize e.calls = calls at hf
  induction calls with
  | nil => rfl
  | cons x rest ih =>
    obtain ⟨k, v⟩ := x
    by_cases hk : k = id
    · obtain ⟨hrole, hplace, hhandler⟩ := hf v (by simp [Table.get?, hk])
      simp [Table.update, hk, Call.seen, hrole, hplace, hhandler]
    · simp only [Table.get?, if_neg hk] at hf
      simp [Table.update, hk, ih hf]

/-! ## Away from the desk -/

theorem Away.refl (e : Engine) : Away e e :=
  ⟨rfl, rfl, rfl, rfl, rfl, rfl, ⟨[], by simp, by simp⟩, fun _ ht => .inl ht, ⟨[], by simp⟩⟩

theorem Away.trans (h : Away e e') (h' : Away e' e'') : Away e e'' where
  callers := h'.callers.trans h.callers
  made := h'.made.trans h.made
  line := h'.line.trans h.line
  locked := h'.locked.trans h.locked
  current := h'.current.trans h.current
  launches := h'.launches.trans h.launches
  ready := by
    obtain ⟨js, hready, hjs⟩ := h.ready
    obtain ⟨js', hready', hjs'⟩ := h'.ready
    refine ⟨js ++ js', by rw [hready', hready, List.append_assoc], fun id hid => ?_⟩
    rcases List.mem_append.mp hid with hid | hid
    · exact hjs id hid
    · exact h.callers ▸ hjs' id hid
  timers t ht := (h'.timers t ht).elim (h.timers t) .inr
  ended := by
    obtain ⟨more, hended⟩ := h.ended
    obtain ⟨more', hended'⟩ := h'.ended
    exact ⟨more ++ more', by rw [hended', hended, List.append_assoc]⟩

theorem Away.single (h : Away e e') (hsingle : (Table.keys e.calls).Nodup) :
    (Table.keys e'.calls).Nodup := by
  rw [keys_callers, h.callers, ← keys_callers]
  exact hsingle

/-- The call is still there, for the same client. -/
theorem Away.call? (h : Away e e') (hsingle : (Table.keys e.calls).Nodup)
    (hcall : e.call? id = some c) : ∃ c', e'.call? id = some c' ∧ c'.role = c.role := by
  have hmem := mem_callers hcall
  rw [← h.callers] at hmem
  obtain ⟨⟨n, c'⟩, hx, heq⟩ := List.mem_map.mp hmem
  obtain ⟨rfl, hrole, -, -⟩ := Caller.mk.inj heq
  exact ⟨c', (Table.get?_eq_some_iff (h.single hsingle)).mpr hx, hrole⟩

/-- Where calls, desk and agenda are the same, nothing was done at the desk. -/
theorem Away.of_same (hcalls : e'.calls = e.calls) (hmade : e'.lastCall = e.lastCall)
    (hdesk : e'.desk.line = e.desk.line ∧ e'.desk.locked = e.desk.locked ∧
      e'.desk.current = e.desk.current ∧ e'.desk.launches.length = e.desk.launches.length)
    (hagenda : e'.agenda = e.agenda) (hended : e'.ended = e.ended) : Away e e' := by
  refine ⟨congrArg (List.map _) hcalls, hmade, hdesk.1, hdesk.2.1, hdesk.2.2.1, hdesk.2.2.2,
    ⟨[], by simp [hagenda], by simp⟩, fun t ht => .inl (hagenda ▸ ht), ⟨[], by simp [hended]⟩⟩

/-- A job is put in line that makes nobody begin. -/
theorem away_post (job : Job)
    (hjob : ∀ id, job = .resume id → ∃ c ∈ e.callers, c.number = id ∧ c.place ≠ .fresh) :
    Away e (e.post job) :=
  { Away.refl e with
    ready := ⟨[job], rfl, fun id hid => hjob id (List.mem_singleton.mp hid).symm⟩ }

/-- A call in the hall that has begun is made to go on. -/
theorem away_resume (hcall : e.call? id = some c) (hplace : c.stage.place ≠ .fresh) :
    Away e (e.post (.resume id)) :=
  away_post _ fun _ heq => ⟨_, mem_callers hcall, Job.resume.inj heq, hplace⟩

/-- A call stays where it is. -/
theorem away_update {f : Call → Call}
    (hf : ∀ c, e.call? id = some c → (f c).role = c.role ∧ (f c).stage.SameAs c.stage) :
    Away e { e with calls := Table.update id f e.calls } :=
  { Away.refl e with callers := callers_update hf }

theorem away_amend (hcall : e.call? id = some c) {stage : Stage}
    (hsame : stage.SameAs c.stage) : Away e (e.amend id stage) :=
  away_update fun d hd => by
    obtain rfl : c = d := Option.some.inj (hcall.symm.trans hd)
    exact ⟨rfl, hsame⟩

theorem away_await (hcall : e.call? id = some c) {stage : Stage}
    (hsame : stage.SameAs c.stage) : Away e (e.await id stage) :=
  away_update fun d hd => by
    obtain rfl : c = d := Option.some.inj (hcall.symm.trans hd)
    exact ⟨rfl, hsame⟩

theorem away_markCancelled (id : Nat) (e : Engine) : Away e (e.markCancelled id) :=
  away_update fun _ _ => ⟨rfl, rfl, rfl⟩

/-- A call that waits for something else is told of it, and goes on. -/
theorem away_told (hcall : e.call? id = some c) {stage : Stage}
    (hsame : stage.SameAs c.stage) (hfresh : c.stage.place ≠ .fresh) (job : Job)
    (hjob : ∀ other, job = .resume other → other = id) : Away e ((e.amend id stage).post job) := by
  have haway := away_amend hcall hsame
  refine haway.trans (away_post job fun other heq => ?_)
  rw [haway.callers, hjob other heq]
  exact ⟨_, mem_callers hcall, rfl, hfresh⟩

/-- Timers that are set are not for calls to begin. -/
theorem away_setTimer (delay : Int) (job : Job) (hjob : ∀ id, job ≠ .resume id) :
    Away e { e with agenda := e.agenda.setTimer delay job } :=
  { Away.refl e with
    timers := fun _ ht => (List.mem_append.mp ht).imp_right fun ht id => by
      rw [List.mem_singleton.mp ht]
      exact hjob id }

theorem away_dropTimers (p : Job → Bool) :
    Away e { e with agenda := e.agenda.dropTimers p } :=
  { Away.refl e with timers := fun _ ht => .inl (List.mem_filter.mp ht).1 }

/-! ### What a relay does -/

theorem away_setRelay (i : Nat) (r : Relay) (e : Engine) : Away e (e.setRelay i r) :=
  .of_same rfl rfl ⟨rfl, rfl, rfl, rfl⟩ rfl rfl

theorem away_answered (hsingle : (Table.keys e.calls).Nodup) (i seq : Nat)
    (outcome : Except Failure Json) : Away e (e.answered i seq outcome) := by
  unfold answered
  split
  · exact .refl e
  · rename_i id c hwatcher
    have hcall : e.call? id = some c :=
      (Table.get?_eq_some_iff hsingle).mpr (List.mem_of_find?_eq_some hwatcher)
    split
    · rename_i relay s ask watch next hstage
      have hsame : (Stage.asking relay s ask watch (some outcome) next).SameAs c.stage :=
        hstage ▸ ⟨rfl, rfl⟩
      have hfresh : c.stage.place ≠ .fresh := hstage ▸ next.place_ne.1
      split
      · exact away_told hcall hsame hfresh _ fun _ heq => (Job.resume.inj heq).symm
      · exact away_told hcall hsame hfresh _ nofun
    · exact .refl e

theorem away_released (waiter : Nat) (outcome : Except Failure Unit) (e : Engine) :
    Away e (e.released waiter outcome) := by
  unfold released
  split
  · rename_i i cancelled hcall
    have hsame : (Stage.checking i (some outcome)).SameAs (.checking i none) := ⟨rfl, rfl⟩
    exact away_told hcall hsame nofun _ fun _ heq => (Job.resume.inj heq).symm
  · exact .refl e

theorem away_deliver (hsingle : (Table.keys e.calls).Nodup) (i : Nat) (effect : Effect) :
    Away e (e.deliver i effect) := by
  cases effect with
  | answered seq outcome => exact away_answered hsingle i seq outcome
  | released waiter outcome => exact away_released waiter outcome e
  | armed uri timer => exact away_setTimer _ (.fire ..) nofun
  | disarmed uri timer => exact away_dropTimers _
  | _ => exact .of_same rfl rfl ⟨rfl, rfl, rfl, rfl⟩ rfl rfl

/-- **Nothing that a relay does touches the desk.** -/
theorem away_operate {α : Type} (hsingle : (Table.keys e.calls).Nodup) (i : Nat)
    (f : Relay → Relay × α) : Away e (e.operate i f).1 := by
  have hfold : ∀ (fx : List Effect) (e : Engine), (Table.keys e.calls).Nodup →
      Away e (fx.foldl (deliver i) e) := by
    intro fx
    induction fx with
    | nil => exact fun e _ => .refl e
    | cons effect rest ih =>
      intro e hsingle
      have haway := away_deliver hsingle i effect
      exact haway.trans (ih _ (haway.single hsingle))
  have hset := away_setRelay i { (f (e.relay i)).1 with outbox := [] } e
  exact hset.trans (hfold _ _ (hset.single hsingle))

theorem away_leave (id i seq : Nat) (e : Engine) : Away e (e.leave id i seq) :=
  (away_setRelay i _ e).trans (away_dropTimers _)

/-! ### What is kept and reported -/

theorem away_keep (id : Nat) (answer : Answer) (e : Engine) : Away e (e.keep id answer).1 := by
  unfold keep
  split
  · exact .of_same rfl rfl ⟨rfl, rfl, rfl, rfl⟩ rfl rfl
  · exact .refl e
  · split
    · exact .refl e
    · exact .of_same rfl rfl ⟨rfl, rfl, rfl, rfl⟩ rfl rfl
  · exact .refl e

theorem away_report (role : Role) (outcome : Except Failure Answer) (e : Engine) :
    Away e (e.report role outcome) := by
  cases role with
  | client name => exact { Away.refl e with ended := ⟨_, rfl⟩ }
  | part whole => exact away_post _ nofun
  | timer relay => exact away_post _ nofun

/-! ### How a command is awaited -/

/-- A call that writes a command fails for want of it, or waits for its outcome;
nothing else is done at the desk. -/
theorem ask_cases (hsingle : (Table.keys e.calls).Nodup) (id i : Nat) (a : Ask)
    (next : Continuation) :
    (∃ e' f, Away e e' ∧ e.ask id i a next = e'.fail id next f) ∨
      ∃ e' seq watch outcome, Away e e' ∧
        Away (e'.await id (.asking i seq a watch outcome next)) (e.ask id i a next) := by
  have haway := away_operate hsingle i (Relay.ask a.command a.arguments)
  unfold ask
  split
  · rename_i e' f heq
    rw [heq] at haway
    exact .inl ⟨e', f, haway, rfl⟩
  · rename_i e' seq heq
    rw [heq] at haway
    refine .inr ?_
    split
    · exact ⟨e', seq, .unbounded, none, haway, .refl _⟩
    · split
      · exact ⟨_, seq, .ending .timedOut, some (.error .cancelled),
          haway.trans (away_setRelay i _ e'), away_post (.passOn id seq) nofun⟩
      · exact ⟨_, seq, .windowed .pending, none,
          haway.trans (away_setTimer _ (.expire id seq) nofun), .refl _⟩

/-! ## The hall -/

/-- A call that was out waits: it is back in the hall. -/
theorem hall_await (hsingle : (Table.keys e.calls).Nodup) (hcall : e.call? id = some c)
    (stage : Stage) (todo : List Job) : (e.await id stage).hall none todo =
      (e.hall (some id) todo).joined ⟨id, c.role, stage.place, stage.handler?⟩ := by
  have hcallers : {d | d ∈ (e.await id stage).callers ∧ none ≠ some d.number} =
      insert ⟨id, c.role, stage.place, stage.handler?⟩ (e.hall (some id) todo).callers := by
    ext d
    constructor
    · rintro ⟨hd, -⟩
      obtain ⟨x, hx, rfl⟩ := List.mem_map.mp hd
      rcases (Table.mem_update_iff hsingle).mp hx with ⟨hid, c', hc', hx⟩ | ⟨hid, hx⟩
      · obtain rfl : c = c' := Option.some.inj
          (hcall.symm.trans ((Table.get?_eq_some_iff hsingle).mpr hc'))
        exact .inl (by rw [hid, hx]; rfl)
      · exact .inr ⟨List.mem_map.mpr ⟨x, hx, rfl⟩, fun heq => hid (Option.some.inj heq).symm⟩
    · rintro (rfl | ⟨hd, hne⟩)
      · exact ⟨List.mem_map.mpr ⟨(id, _), (Table.mem_update_iff hsingle).mpr
          (.inl ⟨rfl, c, mem_of_call? hcall, rfl⟩), rfl⟩, nofun⟩
      · obtain ⟨x, hx, rfl⟩ := List.mem_map.mp hd
        have hother : x.1 ≠ id := fun heq => hne (congrArg some heq.symm)
        exact ⟨List.mem_map.mpr ⟨x, (Table.mem_update_iff hsingle).mpr (.inr ⟨hother, hx⟩), rfl⟩,
          nofun⟩
  simp only [hall, hcallers, Hall.joined]
  rfl

/-- A call that waits anew needs the analysis server for what it was called for, if
it does. -/
theorem claims_await (hsingle : (Table.keys e.calls).Nodup)
    (hclaims : ∀ c ∈ e.callers, ∀ handler, c.handler? = some handler → (c.number, handler) ∈ called)
    {stage : Stage} (hclaim : ∀ handler, stage.handler? = some handler → (id, handler) ∈ called) :
    ∀ c ∈ (e.await id stage).callers, ∀ handler, c.handler? = some handler →
      (c.number, handler) ∈ called := by
  intro c hc
  obtain ⟨⟨n, v⟩, hx, rfl⟩ := List.mem_map.mp hc
  rcases (Table.mem_update_iff hsingle).mp hx with ⟨rfl, w, -, rfl⟩ | ⟨-, hx⟩
  · exact hclaim
  · exact hclaims _ (List.mem_map_of_mem hx)

namespace Tends

/-- **The hall stays tended** whatever is done away from the desk. -/
theorem away (h : e.Tends called served roll out todo) (haway : Away e e') :
    e'.Tends called served roll out todo := by
  obtain ⟨js, hready, hjs⟩ := haway.ready
  obtain ⟨more, hended⟩ := haway.ended
  have hhall : e'.hall out todo = { e.hall out todo with
      jobs := (e.hall out todo).jobs ++ js
      timers := e'.agenda.timers
      ended := (e.hall out todo).ended ++ more } := by
    simp [hall, haway.callers, haway.made, haway.line, haway.locked, haway.current,
      haway.launches, hready, hended]
  refine ⟨haway.single h.single, haway.callers ▸ h.claims, h.granted, haway.made ▸ h.listed,
    haway.made ▸ h.outside, ?_, ?_⟩
  · rw [hhall]
    refine h.tended.aside more (fun id hid => ?_) fun t ht => ?_
    · obtain ⟨c, hc, hnumber, hplace⟩ := hjs id hid
      constructor
      · by_cases hout : out = some c.number
        · exact hnumber ▸ h.outside _ hout
        · exact hnumber ▸ h.tended.made c ⟨hc, hout⟩
      · intro d hd hown
        rwa [eq_of_number h.single hd.1 hc (hown.trans hnumber.symm)]
    · exact (haway.timers t ht).elim (h.tended.timers t) fun h => h
  · rw [hhall]
    exact h.vacant

/-- **A job is done that makes nobody in the hall go on.** -/
theorem drop {job : Job} (h : e.Tends called served roll none (job :: todo))
    (hfresh : ∀ c ∈ e.callers, c.place = .fresh → job ≠ .resume c.number)
    (hline : ∀ t ∈ e.desk.line, t.signal ≠ .pending → job ≠ .resume t.call) :
    e.Tends called served roll none todo := by
  have hjobs : (e.hall none (job :: todo)).jobs = job :: (todo ++ e.agenda.ready) := rfl
  exact ⟨h.single, h.claims, h.granted, h.listed, h.outside,
    h.tended.drop hjobs (fun c hc => hfresh c hc.1) hline, h.vacant⟩

/-- **A call is made.** -/
theorem spawn (h : e.Tends called served roll out todo) (role : Role) (work : Work) :
    (e.spawn role work).Tends
      (called ++
        ((Stage.created work).handler?.map fun handler => (e.lastCall + 1, handler)).toList)
      served roll out todo := by
  have hplace : (Stage.created work).place = .fresh ∨ (Stage.created work).place = .beyond := by
    cases work with
    | handle handler => cases handler <;> simp [Stage.place]
    | _ => exact .inr rfl
  have hmade : ∀ x ∈ e.calls, x.1 ≤ e.lastCall := fun x hx => by
    by_cases hout : out = some x.1
    · exact h.outside _ hout
    · exact h.tended.made (x.2.seen x.1) ⟨List.mem_map_of_mem hx, hout⟩
  have hcalls := calls_spawn hmade role work
  have hlist : (e.spawn role work).callers = e.callers ++
      [⟨e.lastCall + 1, role, (Stage.created work).place, (Stage.created work).handler?⟩] := by
    simp [callers, hcalls, Call.seen]
  have hcallers : {c | c ∈ (e.spawn role work).callers ∧ out ≠ some c.number} =
      insert ⟨e.lastCall + 1, role, (Stage.created work).place, (Stage.created work).handler?⟩
        (e.hall out todo).callers := by
    ext c
    rw [hlist]
    constructor
    · rintro ⟨hc, hout⟩
      rcases List.mem_append.mp hc with hc | hc
      · exact .inr ⟨hc, hout⟩
      · exact .inl (List.mem_singleton.mp hc)
    · rintro (rfl | ⟨hc, hout⟩)
      · exact ⟨List.mem_append_right _ (List.mem_singleton_self _),
          fun heq => Nat.not_succ_le_self _ (h.outside _ heq)⟩
      · exact ⟨List.mem_append_left _ hc, hout⟩
  have hhall : (e.spawn role work).hall out todo =
      { (e.hall out todo).joined ⟨e.lastCall + 1, role, (Stage.created work).place,
          (Stage.created work).handler?⟩ with
        made := e.lastCall + 1
        jobs := todo ++ e.agenda.ready ++ [.resume (e.lastCall + 1)] } := by
    simp only [hall, hcallers, Hall.joined]
    simp [Engine.spawn, post, Agenda.post]
  refine ⟨?_, fun c hc handler hh => ?_, fun s hs => List.mem_append_left _ (h.granted s hs), ?_,
    fun id hid => Nat.le_succ_of_le (h.outside id hid), ?_, ?_⟩
  · rw [hcalls, Table.keys, List.map_append]
    refine List.Nodup.append h.single (List.nodup_singleton _) ?_
    exact List.disjoint_singleton.mpr (next_not_mem_keys hmade)
  · rw [hlist] at hc
    rcases List.mem_append.mp hc with hc | hc
    · exact List.mem_append_left _ (h.claims c hc handler hh)
    · obtain rfl := List.mem_singleton.mp hc
      replace hh : (Stage.created work).handler? = some handler := hh
      exact List.mem_append_right _ (by simp [hh])
  · have hmade' : ∀ c ∈ ((Stage.created work).handler?.map fun handler =>
        (e.lastCall + 1, handler)).toList, c.1 = e.lastCall + 1 := by simp
    constructor
    · rw [List.map_append]
      refine List.pairwise_append.mpr ⟨h.listed.1, ?_, fun n hn m hm => ?_⟩
      · cases (Stage.created work).handler? <;> simp
      · obtain ⟨c, hc, rfl⟩ := List.mem_map.mp hn
        obtain ⟨d, hd, rfl⟩ := List.mem_map.mp hm
        exact (hmade' d hd).symm ▸ Nat.lt_succ_of_le (h.listed.2 c hc)
    · exact fun c hc => (List.mem_append.mp hc).elim (fun hc => Nat.le_succ_of_le (h.listed.2 c hc))
        fun hc => (hmade' c hc).le
  · rw [hhall]
    exact h.tended.arrives hplace
  · rw [hhall]
    exact h.vacant

/-! ### A call ends or waits elsewhere -/

/-- A call that is not there is not out. -/
theorem absent (h : e.Tends called served roll (some id) todo) (hnone : e.call? id = none) :
    e.Tends called served roll none todo := by
  have hhall : e.hall none todo = e.hall (some id) todo := by
    have hcallers : {c | c ∈ e.callers ∧ none ≠ some c.number} =
        (e.hall (some id) todo).callers := by
      ext c
      refine ⟨fun hc => ⟨hc.1, fun heq => ?_⟩, fun hc => ⟨hc.1, by simp⟩⟩
      have hmem : id ∈ Table.keys e.calls := by
        rw [keys_callers]
        exact List.mem_map.mpr ⟨c, hc.1, (Option.some.inj heq).symm⟩
      rw [Table.mem_keys_iff] at hmem
      rw [Engine.call?] at hnone
      simp [hnone] at hmem
    simp only [hall, hcallers]
  exact ⟨h.single, h.claims, h.granted, h.listed, by simp, hhall ▸ h.tended, hhall ▸ h.vacant⟩

/-- **The call that is out ends.** -/
theorem finish (h : e.Tends called served roll (some id) todo) (outcome : Except Failure Answer) :
    (e.finish id outcome).Tends called served roll none todo := by
  have hhall : hall none todo { e with calls := Table.erase id e.calls } =
      e.hall (some id) todo := by
    have hcallers : {c | c ∈ callers { e with calls := Table.erase id e.calls } ∧
        none ≠ some c.number} = (e.hall (some id) todo).callers := by
      ext c
      constructor
      · rintro ⟨hc, -⟩
        obtain ⟨x, hx, rfl⟩ := List.mem_map.mp hc
        obtain ⟨hx, hne⟩ := Table.mem_erase_iff.mp hx
        exact ⟨List.mem_map.mpr ⟨x, hx, rfl⟩, fun heq => hne (Option.some.inj heq).symm⟩
      · rintro ⟨hc, hne⟩
        obtain ⟨x, hx, rfl⟩ := List.mem_map.mp hc
        refine ⟨List.mem_map.mpr ⟨x, Table.mem_erase_iff.mpr ⟨hx, fun heq => ?_⟩, rfl⟩, nofun⟩
        exact hne (congrArg some heq.symm)
    simp only [hall, hcallers]
  have herased : Tends called served roll none todo { e with calls := Table.erase id e.calls } :=
    { single := Table.nodup_keys_erase h.single
      claims := fun c hc => by
        obtain ⟨x, hx, rfl⟩ := List.mem_map.mp hc
        exact h.claims _ (List.mem_map_of_mem (Table.mem_erase_iff.mp hx).1)
      granted := h.granted
      listed := h.listed
      outside := nofun
      tended := hhall ▸ h.tended
      vacant := hhall ▸ h.vacant }
  unfold Engine.finish
  split
  · exact h.absent ‹_›
  · split
    · exact herased.away (away_report _ _ _)
    · exact herased.away ((away_keep _ _ _).trans (away_report _ _ _))

/-- **The call that is out waits**, for nothing at the desk. -/
theorem await (h : e.Tends called served roll (some id) todo) {stage : Stage}
    (hplace : stage.place = .beyond) : (e.await id stage).Tends called served roll none todo := by
  cases hcall : e.call? id with
  | some c =>
    have hhall := hall_await h.single hcall stage todo
    refine ⟨by simpa [Engine.await] using h.single, claims_await h.single h.claims ?_, h.granted,
      h.listed, nofun, ?_,
      hhall ▸ h.vacant⟩
    · simp [Stage.handler?_of_beyond hplace]
    · rw [hhall]
      exact h.tended.joined (fun d hd heq => hd.2 (congrArg some heq.symm)) (h.outside id rfl)
        (.inl hplace)
  | none =>
    refine (h.absent hcall).away (away_update fun c hc => ?_)
    rw [hcall] at hc
    cases hc

/-! ### What is done for a call -/

/-- A command is written, and its outcome awaited. -/
theorem ask (h : e.Tends called served roll (some id) todo) (i : Nat) (a : Ask) (after : After) :
    (e.ask id i a (.answer after)).Tends called served roll none todo := by
  rcases ask_cases h.single id i a (.answer after) with
    ⟨e', f, haway, heq⟩ | ⟨e', seq, watch, outcome, haway, hwaits⟩
  · rw [heq]
    exact (h.away haway).finish (.error f)
  · exact ((h.away haway).await rfl).away hwaits

theorem query (h : e.Tends called served roll (some id) todo) (i : Nat) (q : Query) :
    (e.query id i q).Tends called served roll none todo := by
  unfold Engine.query
  split
  · exact h.finish _
  · exact h.ask i _ _

theorem operate {α : Type} {i : Nat} {f : Relay → Relay × α} {a : α}
    (h : e.Tends called served roll out todo) (heq : e.operate i f = (e', a)) :
    e'.Tends called served roll out todo := by
  have haway := away_operate h.single i f
  rw [heq] at haway
  exact h.away haway

theorem check (h : e.Tends called served roll (some id) todo) (i : Nat) (uri : String) :
    (e.check id i uri).Tends called served roll none todo := by
  unfold Engine.check
  split
  · exact (h.operate ‹_›).finish _
  · exact (h.operate ‹_›).finish _
  · exact (h.operate ‹_›).await rfl

theorem spawnChecks (h : e.Tends called served roll out todo) (whole i : Nat) (uris : List String) :
    (e.spawnChecks whole i uris).Tends called served roll out todo := by
  induction uris generalizing e with
  | nil => exact h
  | cons uri rest ih =>
    exact ih (by simpa [Stage.handler?] using h.spawn (.part whole) (.check i uri))

theorem checkAll (h : e.Tends called served roll (some id) todo) (i : Nat) :
    (e.checkAll id i).Tends called served roll none todo := by
  unfold Engine.checkAll
  simp only []
  split
  · exact h.finish _
  · exact (h.spawnChecks id i _).await rfl

theorem perform (h : e.Tends called served roll (some id) todo) (i : Nat)
    (f : Relay → Relay × Option Failure) :
    (e.perform id i f).Tends called served roll none todo := by
  unfold Engine.perform
  split
  · exact (h.operate ‹_›).finish _
  · exact (h.operate ‹_›).finish _

/-- The analysis server is let go: nobody at the desk or in line is touched. -/
theorem letGo (h : e.Tends called served roll (some id) todo) :
    (e.letGo id).Tends called served roll none todo := by
  unfold Engine.letGo
  split
  · exact h.finish _
  · have hvacated : (e.mapDesk fun d => { d with current := none }).Tends called served roll
        (some id) todo :=
      ⟨h.single, h.claims, h.granted, h.listed, h.outside, h.tended.vacated, h.vacant⟩
    split
    · exact (hvacated.operate ‹_›).finish _
    · refine ((hvacated.operate ‹_›).away ?_).finish _
      exact .of_same rfl rfl ⟨rfl, rfl, rfl, List.length_map _⟩ rfl rfl

/-- **A handler that has what it needs** does not come back to the desk. -/
theorem serve (h : e.Tends called served roll (some id) todo) (i : Nat) (handler : Handler) :
    (e.serve id i handler).Tends called served roll none todo := by
  unfold Engine.serve
  split
  · exact h.finish _
  · exact h.letGo
  · exact h.perform i _
  · exact h.perform i _
  · exact h.perform i _
  · exact h.query i _
  · exact h.check i _
  · exact h.checkAll i

end Tends

end Engine

end LanguageRelay
