import LanguageRelay.Proofs.Desk.Dealings
/-!
# One start at a time

Any number of handlers are called, processes come up or fail to, relays that introduce
themselves are answered well, badly or not at all, calls are cancelled and shutdowns
run, in any order. All of it comes to a log of dealings with the station
(`dealingsOf`), and what holds of every log holds of the language server
(`flown_undergo`).

So the analysis server is started by one call at a time, and only while it is not in
use; between two shutdowns it comes to use once at most, after its relay was answered
well, and all who are served meanwhile are served by that relay; and a start that
fails is told to the call that made it and leaves the desk to the next
(`single_flight`).
-/

namespace LanguageRelay

namespace Engine

/-- The dealings had along a run, in order. -/
def dealingsOf : List Incident → Moment → List Dealing
  | [], _ => []
  | a :: rest, m => a.dealings m ++ dealingsOf rest (a.perform m)

/-- A good answer to an introduction was heard along a run, after that was made. -/
def HeardAlong (incidents : List Incident) (m : Moment) (p : Nat × Nat) : Prop :=
  ∃ before a after, incidents = before ++ a :: after ∧ a.Hears p ∧ (undergo before m).engine.Said p

/-- **What has come of all that happened so far**: handlers were called, dealings had,
and good answers heard. -/
structure Flown (called : List (Nat × String × Handler)) (log : List Dealing)
    (heard : Nat × Nat → Prop) (e : Engine) : Prop where
  tidy : e.Tidy
  sound : e.station.Sound log
  /-- Who waits for the answer to an introduction waits for one that was made. -/
  said : ∀ p ∈ e.posts, ∀ h q, p.task = .start h (some q) → e.Said q
  approved : ∀ x ∈ e.calls, ∀ p, x.2.stage.approved? = some p → p.2 ≠ 0 ∧ heard p
  /-- Whoever needs the analysis server was called by a client. -/
  claims : ∀ x ∈ e.calls, ∀ h, x.2.stage.handler? = some h →
    ∃ name, x.2.role = .client name ∧ (x.1, name, h) ∈ called

variable {called : List (Nat × String × Handler)} {log ds : List Dealing}
variable {heard news : Nat × Nat → Prop} {e e' : Engine} {id i : Nat} {c : Call}
variable {m : Moment} {a : Incident} {incidents before after : List Incident}

theorem dealingsOf_append (incidents more : List Incident) (m : Moment) :
    dealingsOf (incidents ++ more) m =
      dealingsOf incidents m ++ dealingsOf more (undergo incidents m) := by
  induction incidents generalizing m with
  | nil => rfl
  | cons a rest ih => simp [dealingsOf, undergo, ih (a.perform m)]

theorem dealingsOf_snoc (incidents : List Incident) (a : Incident) (m : Moment) :
    dealingsOf (incidents ++ [a]) m = dealingsOf incidents m ++ a.dealings (undergo incidents m) := by
  simp [dealingsOf_append, dealingsOf]

theorem callingsOf_snoc (incidents : List Incident) (a : Incident) (m : Moment) :
    callingsOf (incidents ++ [a]) m =
      callingsOf incidents m ++ (a.called? (undergo incidents m)).toList := by
  induction incidents generalizing m with
  | nil => simp [callingsOf, undergo]
  | cons b rest ih => simp [callingsOf, undergo, ih (b.perform m)]

theorem undergo_snoc (incidents : List Incident) (a : Incident) (m : Moment) :
    undergo (incidents ++ [a]) m = a.perform (undergo incidents m) :=
  undergo_append incidents [a] m

/-- No handler that is called is a shutdown. -/
theorem called_ne_shutdown (incidents : List Incident) (m : Moment) :
    ∀ c ∈ callingsOf incidents m, c.2.2 ≠ .shutdown := by
  induction incidents generalizing m with
  | nil => simp [callingsOf]
  | cons a rest ih =>
    intro c hc
    rcases List.mem_append.mp hc with hc | hc
    · have hcalled : a.called? m = some c := Option.mem_toList.mp hc
      rintro hshut
      obtain ⟨number, name, handler⟩ := c
      obtain rfl : handler = .shutdown := hshut
      cases a with
      | errand a =>
        cases a with
        | call name handler => cases handler <;> simp [Incident.called?, Errand.called?] at hcalled
        | _ => cases hcalled
      | _ => cases hcalled
    · exact ih _ c hc

/-! ## What comes of a run -/

/-- Whoever has heard of a good answer is at work on the start of that relay. -/
theorem task_of_approved {stage : Stage} {p : Nat × Nat} (happroved : stage.approved? = some p)
    (hseq : p.2 ≠ 0) : ∃ h, stage.task? = some (.start h (some p)) := by
  unfold Stage.approved? at happroved
  split at happroved
  · rename_i i seq a watch outcome next
    cases next with
    | answer after => cases happroved
    | startup h =>
      obtain ⟨o, -, ho⟩ := Option.bind_eq_some_iff.mp happroved
      obtain ⟨body, -, rfl⟩ := Option.map_eq_some_iff.mp ho
      exact ⟨h, by simp [Stage.task?, Continuation.task?, show seq ≠ 0 from hseq]⟩
  · cases happroved

namespace Flown

/-- **Dealings are had**, and good answers heard of what was said. -/
theorem passes (h : Flown called log heard e) (hpasses : Passes news ds e e')
    (hnews : ∀ p, news p → p.2 ≠ 0) (hquiet : ∀ p, news p → ds = []) :
    Flown called (log ++ ds) (fun p => heard p ∨ news p ∧ e.Said p) e' where
  tidy := hpasses.tidy
  sound := h.sound.run hpasses.run
  said p hp handler q htask := by
    rcases hpasses.introduced p hp handler q htask with hp | hsaid
    · exact hpasses.said (h.said p hp handler q htask)
    · exact hsaid
  approved x hx p hp := by
    rcases hpasses.approved x hx p hp with hheard | ⟨y, hy, hp⟩
    · -- while it is heard nothing is dealt, so the call waited for it before
      have hseq := hnews p hheard
      obtain ⟨handler, htask⟩ := task_of_approved hp hseq
      have hrun := hpasses.run
      rw [hquiet p hheard] at hrun
      have hposts : e'.posts = e.posts := by
        change e'.station.posts = e.station.posts
        generalize e'.station = s' at hrun
        cases hrun
        rfl
      have hmem := mem_posts ((Table.get?_eq_some_iff hpasses.tidy.single).mpr hx) htask
      exact ⟨hseq, .inr ⟨hheard, h.said _ (hposts ▸ hmem) handler p rfl⟩⟩
    · obtain ⟨hseq, hheard⟩ := h.approved y hy p hp
      exact ⟨hseq, .inl hheard⟩
  claims x hx handler hhandler := by
    obtain ⟨c, hc, hrole, hclaim⟩ := hpasses.claims x hx handler hhandler
    exact hrole ▸ h.claims _ hc handler hclaim

/-- **A handler is called**: that is nothing to the station. -/
theorem calls (h : Flown called log heard e) (name : String) (handler : Handler) :
    Flown (called ++ ((Stage.created (.handle handler)).handler?.map fun handler =>
      (e.lastCall + 1, name, handler)).toList) log heard
        (e.spawn (.client name) (.handle handler)) := by
  obtain ⟨htidy, hstation, hcalls⟩ := spawned h.tidy (.client name) (.handle handler)
  have hposts : (e.spawn (.client name) (.handle handler)).posts = e.posts :=
    congrArg Station.posts hstation
  refine ⟨htidy, hstation ▸ h.sound, fun p hp => h.said p (hposts ▸ hp), fun x hx p hp => ?_,
    fun x hx handler' hhandler => ?_⟩
  · rcases hcalls x hx with rfl | hx
    · cases hp
    · exact h.approved x hx p hp
  · rcases hcalls x hx with rfl | hx
    · refine ⟨name, rfl, List.mem_append_right _ ?_⟩
      replace hhandler : (Stage.created (.handle handler)).handler? = some handler' := hhandler
      simp [hhandler]
    · obtain ⟨name', hrole, hmem⟩ := h.claims x hx handler' hhandler
      exact ⟨name', hrole, List.mem_append_left _ hmem⟩

theorem mono (h : Flown called log heard e) (hheard : ∀ p, heard p → news p) :
    Flown called log news e :=
  { h with approved := fun x hx p hp => (h.approved x hx p hp).imp_right (hheard p) }

end Flown

theorem flown_desk (setup : Setup) (startFailures : List (Option String)) :
    Flown [] [] (fun _ => False) (Moment.desk setup startFailures).engine := by
  have hcalls : (Moment.desk setup startFailures).engine.calls = [] := rfl
  have hrelays : (Moment.desk setup startFailures).engine.relays = [] := rfl
  have hstation : (Moment.desk setup startFailures).engine.station = Station.empty := rfl
  exact ⟨⟨by simp [hcalls, Table.keys], by simp [hcalls, Table.keys], by simp [hrelays]⟩,
    hstation ▸ Station.sound_empty, by simp [posts, hcalls], by simp [hcalls], by simp [hcalls]⟩

theorem called?_call (name : String) (handler : Handler) (m : Moment) :
    (Incident.errand (.call name handler)).called? m =
      (Stage.created (.handle handler)).handler?.map fun handler =>
        (m.engine.lastCall + 1, name, handler) := by
  cases handler <;> rfl

/-- Messages are heard by errands that are no dealings. -/
theorem dealings_of_hears {p : Nat × Nat} (h : a.Hears p) (m : Moment) : a.dealings m = [] := by
  obtain ⟨message, hheard, -⟩ := h
  cases a with
  | errand a =>
    cases a with
    | plain a =>
      cases a with
      | job => cases hheard
      | _ => rfl
    | _ => rfl
  | _ => cases hheard

/-- The hall stays tended all along. -/
theorem tends_along (setup : Setup) (startFailures : List (Option String))
    (incidents : List Incident) :
    let m := Moment.desk setup startFailures
    (undergo incidents m).engine.Tends ((callingsOf incidents m).map fun c => (c.1, c.2.2))
      (servingsOf incidents m) ((callingsOf incidents m).map fun c => (c.1, c.2.1)) none
      (undergo incidents m).todo := by
  simpa using tends_undergo incidents (tends_desk setup startFailures)

/-- An incident that is no call of a handler comes to dealings with the station. -/
theorem passes_along {setup : Setup} {startFailures : List (Option String)}
    (h : Flown called log heard (undergo incidents (.desk setup startFailures)).engine)
    (a : Incident) (hquiet : ∀ name handler, a ≠ .errand (.call name handler)) :
    Passes a.Hears (a.dealings (undergo incidents (.desk setup startFailures)))
      (undergo incidents (.desk setup startFailures)).engine
      (undergo (incidents ++ [a]) (.desk setup startFailures)).engine := by
  rw [undergo_snoc]
  refine passes_incident (tends_along setup startFailures incidents) h.tidy (fun c hc => ?_)
    (fun x hx p hp => (h.approved x hx p hp).1) a hquiet
  obtain ⟨d, hd, rfl⟩ := List.mem_map.mp hc
  exact called_ne_shutdown incidents _ d hd

/-- **What comes of a run.** -/
theorem flown_undergo (setup : Setup) (startFailures : List (Option String))
    (incidents : List Incident) :
    Flown (callingsOf incidents (.desk setup startFailures))
      (dealingsOf incidents (.desk setup startFailures))
      (HeardAlong incidents (.desk setup startFailures))
      (undergo incidents (.desk setup startFailures)).engine := by
  induction incidents using List.reverseRecOn with
  | nil => exact (flown_desk setup startFailures).mono fun _ => False.elim
  | append_singleton incidents a ih =>
    have hstays : ∀ p, HeardAlong incidents (.desk setup startFailures) p →
        HeardAlong (incidents ++ [a]) (.desk setup startFailures) p := by
      rintro p ⟨before, b, after, rfl, hheard⟩
      exact ⟨before, b, after ++ [a], by simp, hheard⟩
    by_cases hcall : ∃ name handler, a = .errand (.call name handler)
    · obtain ⟨name, handler, rfl⟩ := hcall
      have hnothing : (Incident.errand (.call name handler)).dealings
          (undergo incidents (.desk setup startFailures)) = [] := rfl
      have hflown := (ih.calls name handler).mono hstays
      rwa [dealingsOf_snoc, hnothing, List.append_nil, callingsOf_snoc, called?_call, undergo_snoc]
    · have hquiet : ∀ name handler, a ≠ .errand (.call name handler) :=
        fun name handler heq => hcall ⟨name, handler, heq⟩
      have hnobody : a.called? (undergo incidents (.desk setup startFailures)) = none := by
        cases a with
        | errand a => cases a <;> first | rfl | exact absurd rfl (hquiet _ _)
        | _ => rfl
      have hflown := ih.passes (passes_along ih a hquiet) (fun _ hheard => hheard.choose_spec.2.1)
        fun _ hheard => dealings_of_hears hheard _
      rw [dealingsOf_snoc, callingsOf_snoc, hnobody, Option.toList_none, List.append_nil]
      refine hflown.mono fun p hp => ?_
      rcases hp with hheard | ⟨hheard, hsaid⟩
      · exact hstays p hheard
      · exact ⟨incidents, a, [], rfl, hheard, hsaid⟩

/-! ## One start at a time -/

/-- **The analysis server is started by one call at a time**: at any moment of a run, and
whatever happens next. -/
structure SingleFlight (incidents : List Incident) (a : Incident) (m : Moment) : Prop where
  /-- The desk is locked just while a start is in progress, and there is one at most;
  there is none while the analysis server is in use. -/
  busy : ((undergo incidents m).engine.calls.countP fun x => x.2.stage.place = .starting) =
    if (undergo incidents m).engine.desk.locked then 1 else 0
  opened : (undergo incidents m).engine.desk.current.isSome →
    (undergo incidents m).engine.desk.locked = false
  /-- Processes are launched by dealings, and by none but one at a time. -/
  launched : (undergo incidents m).engine.desk.launches.length =
    Dealing.launched (dealingsOf incidents m)
  /-- One is launched only while none is in use and no start in progress, by a call that
  comes before all others in line, and only while no other has been woken. -/
  alone : ∀ id, .launch id ∈ a.dealings (undergo incidents m) →
    (undergo incidents m).engine.desk.current = none ∧
      (undergo incidents m).engine.desk.locked = false ∧
      Dealing.launched (a.dealings (undergo incidents m)) = 1 ∧
      ∀ t ∈ (undergo incidents m).engine.desk.line, t.call ≠ id →
        t.signal ≠ .raised ∧ (t.signal = .pending → id < t.call)
  /-- Of the relays put to use since a shutdown ran last there is one at most: the one in
  use. -/
  once : Dealing.inUse (dealingsOf incidents m) =
    (undergo incidents m).engine.desk.current.toList
  /-- A relay that is put to use had introduced itself, and then heard a good answer. -/
  approved : ∀ i, .ready i ∈ a.dealings (undergo incidents m) →
    ∃ seq, HeardAlong incidents m (i, seq)
  /-- Whoever is served is served by the relay put to use since a shutdown ran last. -/
  served : ∀ s, a.serving? (undergo incidents m) = some s →
    Dealing.inUse (dealingsOf (incidents ++ [a]) m) = [s.relay]
  /-- So all are served by the same one until the next runs. -/
  same : ∀ more b s s', a.serving? (undergo incidents m) = some s →
    b.serving? (undergo (incidents ++ a :: more) m) = some s' →
    .shut ∉ dealingsOf (more ++ [b]) (undergo (incidents ++ [a]) m) → s'.relay = s.relay
  /-- **A start that fails** is told to the client that made the call, which is over; the
  desk is free, and the next in line has been woken, and will go on. -/
  failed : ∀ id relay f, .fail id relay f ∈ a.dealings (undergo incidents m) →
    (∃ name h, (id, name, h) ∈ callingsOf incidents m ∧
      (undergo (incidents ++ [a]) m).engine.ended =
        (undergo incidents m).engine.ended ++ [(name, .error f)]) ∧
      (undergo (incidents ++ [a]) m).engine.call? id = none ∧
      (undergo (incidents ++ [a]) m).engine.desk.current = none ∧
      (undergo (incidents ++ [a]) m).engine.desk.locked = false ∧
      ∀ t ∈ (undergo (incidents ++ [a]) m).engine.desk.line.head?,
        t.signal ≠ .pending ∧ .resume t.call ∈ (undergo (incidents ++ [a]) m).jobs
  /-- While the desk is free the first in line has been woken, and will go on. -/
  woken : (undergo incidents m).engine.desk.locked = false →
    ∀ t ∈ (undergo incidents m).engine.desk.line.head?,
      t.signal ≠ .pending ∧ .resume t.call ∈ (undergo incidents m).jobs
  /-- **Whoever was woken starts the analysis server** when its turn comes, unless it is in
  use or the call was cancelled. -/
  next : ∀ t ∈ (undergo incidents m).engine.desk.line, t.signal = .raised →
    (undergo incidents m).engine.desk.current = none →
    a.job? (undergo incidents m) = some (.resume t.call) →
    (∀ c, (undergo incidents m).engine.call? t.call = some c → c.cancelled = false) →
    .launch t.call ∈ a.dealings (undergo incidents m)

/-- Calls are posted to a start just while they make one. -/
theorem countP_posts (e : Engine) : e.posts.countP (fun p => p.task.starts = true) =
    e.calls.countP fun x => x.2.stage.place = .starting := by
  rw [posts, Multiset.coe_countP, List.countP_filterMap]
  refine List.countP_congr fun x _ => ?_
  cases hstage : x.2.stage with
  | asking i seq a watch outcome next =>
    cases next with
    | startup h => simp [Call.post?, hstage, Stage.task?, Continuation.task?, Stage.place,
        Continuation.place]
    | answer after =>
      by_cases hseq : seq = 0 <;> simp [Call.post?, hstage, Stage.task?, Continuation.task?, hseq,
        Stage.place, Continuation.place]
  | created work =>
    cases work with
    | handle h => cases h <;> simp [Call.post?, hstage, Stage.task?, Stage.place]
    | _ => simp [Call.post?, hstage, Stage.task?, Stage.place]
  | _ => simp [Call.post?, hstage, Stage.task?, Stage.place]

theorem queued_of_inLine {stage : Stage} (hplace : stage.place = .inLine) :
    ∃ handler, stage = .queued handler := by
  cases stage with
  | created work =>
    cases work with
    | handle h => cases h <;> cases hplace
    | _ => cases hplace
  | asking i seq a watch outcome next => exact absurd hplace next.place_ne.2
  | queued h => exact ⟨h, rfl⟩
  | _ => cases hplace

/-- A launch is by a call that may take the desk. -/
theorem boards_of_mem {called : List (Nat × Handler)} {served : List Serving}
    {roll : List (Nat × String)} (h : m.engine.Tends called served roll none m.todo)
    (hmem : .launch id ∈ a.dealings m) :
    Dealing.launched (a.dealings m) = 1 ∧
      ∃ job handler todo, m.engine.Boards called served roll todo job id handler := by
  obtain ⟨job, handler, hjob, hlaunching⟩ := launching_of_mem hmem
  obtain ⟨ds, hds, hnone⟩ := dealings_of_launching hjob hlaunching
  obtain ⟨rest, htodo⟩ : ∃ rest, m.todo = job :: rest := by
    cases a with
    | slowly refusal => exact List.head?_eq_some_iff.mp hjob
    | errand a =>
      cases a with
      | plain a =>
        cases a with
        | job => exact List.head?_eq_some_iff.mp hjob
        | _ => cases hjob
      | _ => cases hjob
    | _ => cases hjob
  rw [htodo] at h
  refine ⟨?_, job, handler, rest, h.boards hlaunching⟩
  have hcons : Dealing.launched (.launch id :: ds) = Dealing.launched ds + 1 :=
    List.countP_cons_of_pos rfl
  rw [hds, hcons, hnone]

/-- Whoever was woken in line starts the analysis server, unless it was cancelled. -/
theorem launching_of_raised {called : List (Nat × Handler)} {served : List Serving}
    {roll : List (Nat × String)} {todo : List Job} (h : e.Tends called served roll none todo)
    {t : Ticket} (hmem : t ∈ e.desk.line) (hraised : t.signal = .raised)
    (hcurrent : e.desk.current = none)
    (hkept : ∀ c, e.call? t.call = some c → c.cancelled = false) :
    ∃ handler, e.launching? (.resume t.call) = some (t.call, handler) := by
  obtain ⟨d, ⟨hd, -⟩, hnumber, hplace⟩ := h.tended.ticketed t hmem
  obtain ⟨⟨n, c⟩, hx, rfl⟩ := List.mem_map.mp hd
  obtain rfl : n = t.call := hnumber
  have hcall : e.call? t.call = some c := (Table.get?_eq_some_iff h.single).mpr hx
  obtain ⟨handler, hstage⟩ : ∃ handler, c.stage = .queued handler := queued_of_inLine hplace
  have hready : (e.desk.line.any fun u => u.call == t.call && u.signal == .raised) = true :=
    List.any_eq_true.mpr ⟨t, hmem, by simp [hraised]⟩
  exact ⟨handler, by simp [launching?, hcall, hstage, hkept c hcall, hcurrent, hready]⟩

/-- While the desk is free the first in line has been woken, and will go on. -/
theorem woken_along (setup : Setup) (startFailures : List (Option String))
    (incidents : List Incident)
    (hfree : (undergo incidents (.desk setup startFailures)).engine.desk.locked = false) :
    ∀ t ∈ (undergo incidents (.desk setup startFailures)).engine.desk.line.head?,
      t.signal ≠ .pending ∧ .resume t.call ∈ (undergo incidents (.desk setup startFailures)).jobs := by
  intro t ht
  have htends := tends_along setup startFailures incidents
  have hsignal := htends.vacant hfree t ht
  exact ⟨hsignal, htends.tended.woken t (List.mem_of_mem_head? ht) hsignal⟩

/-- Whoever is served is served by the relay in use. -/
theorem inUse_of_serving (setup : Setup) (startFailures : List (Option String))
    (incidents : List Incident) (a : Incident) {s : Serving}
    (hserving : a.serving? (undergo incidents (.desk setup startFailures)) = some s) :
    Dealing.inUse (dealingsOf (incidents ++ [a]) (.desk setup startFailures)) = [s.relay] := by
  have hquiet : ∀ name handler, a ≠ .errand (.call name handler) := by
    rintro name handler rfl
    cases hserving
  have hpasses := passes_along (flown_undergo setup startFailures incidents) a hquiet
  rw [undergo_snoc] at hpasses
  have hcurrent := current_of_serving hpasses hserving
  rw [(flown_undergo setup startFailures (incidents ++ [a])).sound.inUse, undergo_snoc]
  change (Option.toList (a.perform _).engine.desk.current) = _
  rw [hcurrent]
  rfl

/-- **Single flight.** Over any run, whatever happens next. -/
theorem single_flight (setup : Setup) (startFailures : List (Option String))
    (incidents : List Incident) (a : Incident) :
    SingleFlight incidents a (.desk setup startFailures) := by
  have htends := tends_along setup startFailures incidents
  have hflown := flown_undergo setup startFailures incidents
  have hwoken := woken_along setup startFailures
  have hserved := fun incidents a s => inUse_of_serving setup startFailures incidents a (s := s)
  generalize Moment.desk setup startFailures = m at *
  refine ⟨?_, hflown.sound.opened, hflown.sound.launched, fun id hmem => ?_, hflown.sound.inUse,
    fun i hmem => ?_, hserved incidents a, fun more b s s' hs hs' hkept => ?_,
    fun id relay f hmem => ?_, hwoken incidents, fun t hmem hraised hcurrent hjob hkept => ?_⟩
  · rw [← countP_posts]
    exact hflown.sound.held
  · obtain ⟨hone, job, handler, todo, hboards⟩ := boards_of_mem htends hmem
    obtain ⟨role, hmanned⟩ := hboards.manned
    refine ⟨hboards.vacant, hboards.unlocked, hone, fun t ht hother => ?_⟩
    have hleft : t ∈ ((undergo incidents m).engine.leaveLine id).desk.line :=
      List.mem_filter.mpr ⟨ht, by simpa using hother⟩
    refine ⟨fun hraised => ?_, fun hpending => hboards.foremost.line t hleft (by simp [hpending])⟩
    -- once the desk is taken nobody in line is awake
    have hfree := (hmanned ⟨none, false, 0, none⟩ []).tends.tended.free t hleft hraised
    cases hfree
  · obtain ⟨id, c, seq, hcall, happroved⟩ := approved_of_mem hmem
    exact ⟨seq, (hflown.approved _ (mem_of_call? hcall) _ happroved).2⟩
  · -- what is in use is so until a shutdown runs
    have hprefix := Dealing.inUse_prefix (dealingsOf (incidents ++ [a]) m) hkept
    rw [← dealingsOf_append, ← List.append_assoc, List.append_assoc incidents, List.singleton_append,
      hserved incidents a s hs, hserved (incidents ++ a :: more) b s' hs'] at hprefix
    exact (List.cons_prefix_cons.mp hprefix).1.symm
  · obtain ⟨⟨c, handler, hcall, hhandler, htold⟩, hgone, hfree, hvacant⟩ :=
      disappoints_of_mem htends hflown.tidy hmem
    obtain ⟨name, hrole, hcalled⟩ := hflown.claims _ (mem_of_call? hcall) handler hhandler
    have hfirst := hwoken (incidents ++ [a])
    rw [undergo_snoc] at hfirst ⊢
    exact ⟨⟨name, handler, hcalled, htold name hrole⟩, hgone, hvacant, hfree, hfirst hfree⟩
  · obtain ⟨handler, hlaunching⟩ := launching_of_raised htends hmem hraised hcurrent hkept
    obtain ⟨ds, hds, -⟩ := dealings_of_launching hjob hlaunching
    rw [hds]
    exact List.mem_cons_self

end Engine

end LanguageRelay
