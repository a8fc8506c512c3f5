import LanguageRelay.Proofs.Desk.Passages
/-!
# What dealings come of

A log of dealings tells little of who had them. Here each is traced to what it came
of: a process is launched by a job that starts one (`launching_of_mem`), a relay is
put to use by a call that has heard of a good answer (`approved_of_mem`), a start that
fails is told to the call that made it (`disappoints_of_mem`), and whoever is served is
so by the relay in use (`current_of_serving`).
-/

namespace LanguageRelay

namespace Engine

variable {called : List (Nat × Handler)} {served : List Serving} {roll : List (Nat × String)}
variable {todo : List Job} {e e' : Engine} {id i : Nat} {c : Call} {handler : Handler} {job : Job}
variable {d : Dealing} {m : Moment} {a : Incident} {incidents : List Incident}

/-! ## What dealings come of -/

theorem mem_openedDealings {outcome : Except Failure (Option Closure)}
    (hmem : d ∈ e.openedDealings id outcome) :
    (∃ i, d = .connect i) ∨ ∃ relay f, d = .fail id relay f := by
  unfold openedDealings at hmem
  split at hmem
  · cases hmem
  · exact .inr ⟨none, _, List.mem_singleton.mp hmem⟩
  · exact .inl ⟨_, List.mem_singleton.mp hmem⟩
  · rcases List.mem_cons.mp hmem with rfl | hmem
    · exact .inl ⟨_, rfl⟩
    · exact .inr ⟨_, _, List.mem_singleton.mp hmem⟩

/-- By a job a process is launched, and may come up or fail to at once; or one is let
go; or it concludes what was begun. -/
theorem mem_jobDealings (hmem : d ∈ e.jobDealings job) :
    (∃ id h, e.launching? job = some (id, h) ∧ (d = .launch id ∨
      d ∈ ((e.leaveLine id).opening id h).openedDealings id e.startOutcome)) ∨
    (d = .shut ∨ ∃ i, d = .stop i) ∨
    (e.launching? job = none ∧ e.leaving? job = none ∧ e.concluding? job = some d) := by
  unfold jobDealings at hmem
  split at hmem
  · exact .inl ⟨_, _, ‹_›, List.mem_cons.mp hmem⟩
  · rename_i i _ _
    exact .inr (.inl ((show d = .shut ∨ d = .stop i by simpa using hmem).imp_right fun h => ⟨i, h⟩))
  · exact .inr (.inr ⟨‹_›, ‹_›, Option.mem_toList.mp hmem⟩)

theorem mem_slowDealings {refusal : Option Closure} (hmem : d ∈ e.slowDealings refusal job) :
    (∃ id h, e.launching? job = some (id, h) ∧ d = .launch id) ∨
    (d = .shut ∨ ∃ i, d = .abandon i) ∨
    (e.launching? job = none ∧ e.leaving? job = none ∧ e.concluding? job = some d) := by
  unfold slowDealings at hmem
  split at hmem
  · exact .inl ⟨_, _, ‹_›, List.mem_singleton.mp hmem⟩
  · rename_i i _ _
    rcases List.mem_cons.mp hmem with rfl | hmem
    · exact .inr (.inl (.inl rfl))
    · split at hmem
      · exact .inr (.inl (.inr ⟨i, List.mem_singleton.mp hmem⟩))
      · cases hmem
  · exact .inr (.inr ⟨‹_›, ‹_›, Option.mem_toList.mp hmem⟩)

theorem mem_stoppedDealings {failure : Option Failure} (hmem : d ∈ e.stoppedDealings id failure) :
    ∃ i, d = .abandon i ∨ d = .stop i := by
  unfold stoppedDealings at hmem
  split at hmem
  · cases hmem
  · exact ⟨_, .inl (List.mem_singleton.mp hmem)⟩
  · exact ⟨_, .inr (List.mem_singleton.mp hmem)⟩

/-- **What dealings come of.** A process is launched by a job; one that comes up, or
fails to, does so for the call that waits for it; or a job concludes what was begun;
or a process is let go. -/
theorem dealings_cases (hmem : d ∈ a.dealings m) :
    (∃ job id h, a.job? m = some job ∧ m.engine.launching? job = some (id, h) ∧ d = .launch id) ∨
    (∃ e id outcome, d ∈ openedDealings id outcome e) ∨
    (∃ job, a.job? m = some job ∧ m.engine.concluding? job = some d) ∨
    (d = .shut ∨ ∃ i, d = .abandon i ∨ d = .stop i) := by
  cases a with
  | opened id outcome => exact .inr (.inl ⟨_, _, _, hmem⟩)
  | stopped id failure => exact .inr (.inr (.inr (.inr (mem_stoppedDealings hmem))))
  | slowly refusal =>
    obtain ⟨todo, e⟩ := m
    cases todo with
    | nil => cases hmem
    | cons job rest =>
      rcases mem_slowDealings hmem with ⟨id, h, hlaunching, rfl⟩ | hgone | ⟨-, -, hconcludes⟩
      · exact .inl ⟨job, id, h, rfl, hlaunching, rfl⟩
      · exact .inr (.inr (.inr (hgone.imp_right fun ⟨i, hi⟩ => ⟨i, .inl hi⟩)))
      · exact .inr (.inr (.inl ⟨job, rfl, hconcludes⟩))
  | errand a =>
    cases a with
    | plain a =>
      cases a with
      | job =>
        obtain ⟨todo, e⟩ := m
        cases todo with
        | nil => cases hmem
        | cons job rest =>
          rcases mem_jobDealings hmem with
            ⟨id, h, hlaunching, rfl | hopened⟩ | hgone | ⟨-, -, hconcludes⟩
          · exact .inl ⟨job, id, h, rfl, hlaunching, rfl⟩
          · exact .inr (.inl ⟨_, _, _, hopened⟩)
          · exact .inr (.inr (.inr (hgone.imp_right fun ⟨i, hi⟩ => ⟨i, .inr hi⟩)))
          · exact .inr (.inr (.inl ⟨job, rfl, hconcludes⟩))
      | _ => cases hmem
    | _ => cases hmem

/-- What is concluded by a job: a shutdown ran, or a call goes on that waited for a
command. -/
theorem concluding_cases (hconcludes : e.concluding? job = some d) : ∃ id c, job = .resume id ∧
    e.call? id = some c ∧ (d = .shut ∨
      ∃ i seq a watch outcome next o, c.stage = .asking i seq a watch outcome next ∧
        c.verdict? = some o ∧ next.dealing? id i seq o = some d) := by
  unfold concluding? at hconcludes
  split at hconcludes
  · rename_i id
    obtain ⟨c, hcall, hc⟩ := Option.bind_eq_some_iff.mp hconcludes
    refine ⟨id, c, rfl, hcall, ?_⟩
    split at hc
    · split at hc
      · cases hc
      · exact .inl (Option.some.inj hc).symm
    · obtain ⟨o, hverdict, hdealing⟩ := Option.bind_eq_some_iff.mp hc
      exact .inr ⟨_, _, _, _, _, _, o, ‹_›, hverdict, hdealing⟩
    · cases hc
  · cases hconcludes

/-- **A process is launched** by a job that starts one. -/
theorem launching_of_mem (hmem : .launch id ∈ a.dealings m) :
    ∃ job handler, a.job? m = some job ∧ m.engine.launching? job = some (id, handler) := by
  rcases dealings_cases hmem with
    ⟨job, n, h, hjob, hlaunching, heq⟩ | ⟨e, n, outcome, hopened⟩ | ⟨job, -, hconcludes⟩ | hgone
  · exact ⟨job, h, hjob, Dealing.launch.inj heq ▸ hlaunching⟩
  · rcases mem_openedDealings hopened with ⟨i, heq⟩ | ⟨relay, f, heq⟩ <;> cases heq
  · obtain ⟨n, c, -, -, heq | ⟨i, seq, a, watch, outcome, next, o, -, -, hdealing⟩⟩ :=
      concluding_cases hconcludes
    · cases heq
    · cases next with
      | startup h => cases o <;> cases hdealing
      | answer after =>
        simp only [Continuation.dealing?] at hdealing
        split at hdealing <;> cases hdealing
  · rcases hgone with heq | ⟨i, heq | heq⟩ <;> cases heq

/-- **A relay is put to use** by the call that started it, once it has heard of a good
answer. -/
theorem approved_of_mem (hmem : .ready i ∈ a.dealings m) :
    ∃ id c seq, m.engine.call? id = some c ∧ c.stage.approved? = some (i, seq) := by
  rcases dealings_cases hmem with
    ⟨job, n, h, -, -, heq⟩ | ⟨e, n, outcome, hopened⟩ | ⟨job, -, hconcludes⟩ | hgone
  · cases heq
  · rcases mem_openedDealings hopened with ⟨i, heq⟩ | ⟨relay, f, heq⟩ <;> cases heq
  · obtain ⟨n, c, -, hcall, heq | ⟨j, seq, a, watch, outcome, next, o, hstage, hverdict, hdealing⟩⟩ :=
      concluding_cases hconcludes
    · cases heq
    · cases next with
      | startup h =>
        cases o with
        | ok body =>
          obtain rfl : j = i := Dealing.ready.inj (Option.some.inj hdealing)
          exact ⟨n, c, seq, hcall, approved_of_verdict hstage hverdict⟩
        | error f => cases hdealing
      | answer after =>
        simp only [Continuation.dealing?] at hdealing
        split at hdealing <;> cases hdealing
  · rcases hgone with heq | ⟨i, heq | heq⟩ <;> cases heq

/-- A job that starts a process has one launched, and no more. -/
theorem dealings_of_launching (hjob : a.job? m = some job)
    (hlaunching : m.engine.launching? job = some (id, handler)) :
    ∃ ds, a.dealings m = .launch id :: ds ∧ Dealing.launched ds = 0 := by
  obtain ⟨todo, e⟩ := m
  cases a with
  | slowly refusal =>
    obtain ⟨rest, rfl⟩ : ∃ rest, todo = job :: rest := List.head?_eq_some_iff.mp hjob
    exact ⟨[], by simp [Incident.dealings, slowDealings, hlaunching], rfl⟩
  | errand a =>
    cases a with
    | plain a =>
      cases a with
      | job =>
        obtain ⟨rest, rfl⟩ : ∃ rest, todo = job :: rest := List.head?_eq_some_iff.mp hjob
        refine ⟨((e.leaveLine id).opening id handler).openedDealings id e.startOutcome,
          by simp [Incident.dealings, jobDealings, hlaunching], List.countP_eq_zero.mpr ?_⟩
        intro d hd
        rcases mem_openedDealings hd with ⟨i, rfl⟩ | ⟨relay, f, rfl⟩ <;> simp [Dealing.isLaunch]
      | _ => cases hjob
    | _ => cases hjob
  | _ => cases hjob

/-! ## Who is told of a failure -/

/-- A call that was to start the analysis server fails: its client is told why, it is
over, and the desk is free. -/
structure Disappoints (id : Nat) (f : Failure) (e e' : Engine) : Prop where
  told : ∃ c handler, e.call? id = some c ∧ c.stage.handler? = some handler ∧
    ∀ name, c.role = .client name → e'.ended = e.ended ++ [(name, .error f)]
  gone : e'.call? id = none
  unlocked : e'.desk.locked = false
  vacant : e'.desk.current = none

theorem disappoints_fail (hcall : e.call? id = some c) (hhandler : c.stage.handler? = some handler)
    (hcurrent : e.desk.current = none) (h : Handler) (f : Failure) :
    Disappoints id f e (e.fail id (.startup h) f) := by
  have hcall' : e.unlock.call? id = some c := by
    rw [call?, unlock, calls_wakeFirst]
    exact hcall
  have hended : e.unlock.ended = e.ended := by
    rw [unlock, ended_wakeFirst]
    rfl
  have hdesk : e.unlock.desk.locked = false ∧ e.unlock.desk.current = none := by
    unfold unlock wakeFirst
    split <;> exact ⟨rfl, hcurrent⟩
  have hfinish : e.fail id (.startup h) f =
      ({ e.unlock with calls := Table.erase id e.unlock.calls } : Engine).report c.role
        (.error f) := by
    simp only [fail, finish, hcall']
  have hreport : ∀ role (e : Engine), (e.report role (.error f)).calls = e.calls ∧
      (e.report role (.error f)).desk = e.desk := by
    intro role e
    cases role <;> exact ⟨rfl, rfl⟩
  rw [hfinish]
  refine ⟨⟨c, handler, hcall, hhandler, fun name hrole => ?_⟩, ?_, ?_, ?_⟩
  · simp only [report, hrole, hended]
  · rw [call?, (hreport _ _).1]
    simp [Table.get?_erase]
  · rw [(hreport _ _).2]
    exact hdesk.1
  · rw [(hreport _ _).2]
    exact hdesk.2

/-- What goes along before tells nobody. -/
theorem Disappoints.after {heard : Nat × Nat → Prop} {f : Failure} {e'' : Engine} (ht : e.Tidy)
    (h : Disappoints id f e' e'') (halong : Along heard e e') (hended : e'.ended = e.ended) :
    Disappoints id f e e'' := by
  obtain ⟨c, handler, hcall, hhandler, htold⟩ := h.told
  obtain ⟨d, hd, hrole, hclaim⟩ := halong.claims _ (mem_of_call? hcall) handler hhandler
  exact { h with
    told := ⟨d, handler, (Table.get?_eq_some_iff ht.single).mpr hd, hclaim,
      fun name hname => hended ▸ htold name (hrole.symm.trans hname)⟩ }

theorem disappoints_opened {n : Nat} {relay : Option Nat} {f : Failure}
    {outcome : Except Failure (Option Closure)} (h : e.Tends called served roll none todo)
    (ht : e.Tidy) (hmem : .fail id relay f ∈ e.openedDealings n outcome) :
    Disappoints id f e (e.opened n outcome) := by
  cases hopener : e.opener? n with
  | none => simp [openedDealings, hopener] at hmem
  | some handler =>
    obtain ⟨c, hcall, -, hhandler⟩ := waits_of_opener hopener
    obtain ⟨-, -, -, -, -, hcurrent⟩ := h.opener hopener
    cases outcome with
    | error f' =>
      simp only [openedDealings, hopener, List.mem_singleton] at hmem
      obtain ⟨rfl, -, rfl⟩ := Dealing.fail.inj hmem
      simp only [opened, hopener]
      exact disappoints_fail hcall hhandler hcurrent handler f
    | ok refusal =>
      cases refusal with
      | none => simp [openedDealings, hopener] at hmem
      | some cause =>
        obtain ⟨rfl, rfl⟩ : id = n ∧ f = .closed cause := by
          simp only [openedDealings, hopener, List.mem_cons, reduceCtorEq, false_or,
            List.not_mem_nil, or_false] at hmem
          exact ⟨(Dealing.fail.inj hmem).1, (Dealing.fail.inj hmem).2.2⟩
        obtain ⟨e', haside, hcalls, hended, heq⟩ := ask_refused (fun _ => False) ht id
          ((e.connect (some cause)).introduction e.relays.length) handler cause
        have hcall' : e'.call? id = some c := by rwa [call?, hcalls]
        have hcurrent' : e'.desk.current = none :=
          (congrArg Station.current haside.station).trans hcurrent
        simp only [opened, hopener]
        rw [heq]
        exact (disappoints_fail hcall' hhandler hcurrent' handler (.closed cause)).after ht
          ((along_connect ht (some cause)).trans haside.toAlong) hended

theorem disappoints_concluding {relay : Option Nat} {f : Failure}
    (h : e.Tends called served roll none (job :: todo)) (ht : e.Tidy)
    (hconcludes : e.concluding? job = some (.fail id relay f)) :
    Disappoints id f e (e.dispatch job) := by
  obtain ⟨n, c, rfl, hcall, heq | ⟨j, seq, a, watch, outcome, next, o, hstage, hverdict, hdealing⟩⟩ :=
    concluding_cases hconcludes
  · cases heq
  · cases next with
    | answer after =>
      simp only [Continuation.dealing?] at hdealing
      split at hdealing <;> cases hdealing
    | startup handler =>
      cases o with
      | ok body => cases hdealing
      | error f' =>
        obtain ⟨rfl, -, rfl⟩ := Dealing.fail.inj (Option.some.inj hdealing)
        rcases resume_of_verdict (fun _ => False) ht hcall hstage with
          ⟨hnone, -⟩ | ⟨e', o', hverdict', haside, hcalls, hended, heq⟩
        · cases hnone.symm.trans hverdict
        · obtain rfl := Option.some.inj (hverdict.symm.trans hverdict')
          have hcall' : e'.call? n = some c := by rwa [call?, hcalls]
          have hhandler : c.stage.handler? = some handler := hstage ▸ rfl
          have hcurrent : e.desk.current = none :=
            (h.tended.busy _ (mem_hall hcall) (hstage ▸ rfl : c.stage.place = .starting)).2
          have hcurrent' : e'.desk.current = none :=
            (congrArg Station.current haside.station).trans hcurrent
          change Disappoints n f' e (e.resume n)
          rw [heq]
          exact (disappoints_fail hcall' hhandler hcurrent' handler f').after ht haside.toAlong
            hended

/-- **Whoever makes a start that fails is told so**, and the desk is free again. -/
theorem disappoints_of_mem {relay : Option Nat} {f : Failure}
    (h : m.engine.Tends called served roll none m.todo) (ht : m.engine.Tidy)
    (hmem : .fail id relay f ∈ a.dealings m) :
    Disappoints id f m.engine (a.perform m).engine := by
  cases a with
  | opened n outcome => exact disappoints_opened h ht hmem
  | stopped n failure =>
    obtain ⟨i, heq | heq⟩ := mem_stoppedDealings hmem <;> cases heq
  | slowly refusal =>
    obtain ⟨todo, e⟩ := m
    cases todo with
    | nil => cases hmem
    | cons job rest =>
      rcases mem_slowDealings hmem with
        ⟨n, h, -, heq⟩ | heq | ⟨hlaunching, hleaving, hconcludes⟩
      · cases heq
      · rcases heq with heq | ⟨i, heq⟩ <;> cases heq
      · have hdispatches : e.dispatchSlowly refusal job = e.dispatch job := by
          simp only [dispatchSlowly, hlaunching, hleaving]
        change Disappoints id f e (e.dispatchSlowly refusal job)
        rw [hdispatches]
        exact disappoints_concluding h ht hconcludes
  | errand a =>
    cases a with
    | plain a =>
      cases a with
      | job =>
        obtain ⟨todo, e⟩ := m
        cases todo with
        | nil => cases hmem
        | cons job rest =>
          rcases mem_jobDealings hmem with
            ⟨n, handler, hlaunching, heq | hopened⟩ | heq | ⟨-, -, hconcludes⟩
          · cases heq
          · have hopening : Passes (fun _ => False) _ _ _ := passes_opening h ht hlaunching
            change Disappoints id f e (e.dispatch job)
            rw [dispatch_of_launching h hlaunching]
            exact (disappoints_opened (h.opening hlaunching) hopening.tidy hopened).after ht
              hopening.toAlong rfl
          · rcases heq with heq | ⟨i, heq⟩ <;> cases heq
          · exact disappoints_concluding h ht hconcludes
      | _ => cases hmem
    | _ => cases hmem

/-! ## Who is served -/

/-- A call that goes on with what it has started puts it to use. -/
theorem ready_of_started (hcall : e.call? id = some c) (hstarted : c.started? = some (i, handler)) :
    e.launching? (.resume id) = none ∧ e.leaving? (.resume id) = none ∧
      e.concluding? (.resume id) = some (.ready i) := by
  obtain ⟨role, stage, cancelled⟩ := c
  unfold Call.started? at hstarted
  split at hstarted
  · rename_i hstage
    obtain rfl : stage = _ := hstage
    split at hstarted
    · cases hstarted
    · rename_i hkept
      obtain ⟨rfl, rfl⟩ := Prod.mk.inj (Option.some.inj hstarted)
      have hstays : cancelled = false := by simpa using hkept
      simp [launching?, leaving?, concluding?, hcall, Call.verdict?, hstays, Continuation.dealing?]
  · rename_i hstage
    obtain rfl : stage = _ := hstage
    split at hstarted
    · rename_i hwoken
      obtain ⟨rfl, rfl⟩ := Prod.mk.inj (Option.some.inj hstarted)
      simp only [launching?, leaving?, concluding?, hcall, Call.verdict?, hwoken, if_true,
        Option.bind_some, Continuation.dealing?, true_and]
    · cases hstarted
  · cases hstarted

/-- Whoever is served is so by the relay in use, or by one that is put to use. -/
theorem serving_cases {s : Serving} (hserving : e.serving? job = some s) :
    e.launching? job = none ∧ e.leaving? job = none ∧
      (e.desk.current = some s.relay ∧ e.concluding? job = none ∨
        e.concluding? job = some (.ready s.relay)) := by
  unfold serving? at hserving
  split at hserving
  · obtain ⟨c, hcall, hc⟩ := Option.bind_eq_some_iff.mp hserving
    split at hc
    · cases hc
    · rename_i handler hne hstage
      split at hc
      · cases hc
      · obtain ⟨i, hcurrent, rfl⟩ := Option.map_eq_some_iff.mp hc
        cases handler <;> first
          | exact absurd rfl hne
          | simp [launching?, leaving?, concluding?, hcall, hstage, hcurrent]
    · rename_i hstage
      split at hc
      · obtain ⟨i, hcurrent, rfl⟩ := Option.map_eq_some_iff.mp hc
        simp [launching?, leaving?, concluding?, hcall, hstage, hcurrent]
      · cases hc
    · obtain ⟨⟨i, handler⟩, hstarted, rfl⟩ := Option.map_eq_some_iff.mp hc
      obtain ⟨hlaunching, hleaving, hready⟩ := ready_of_started hcall hstarted
      exact ⟨hlaunching, hleaving, .inr hready⟩
  · cases hserving

/-- **Whoever is served is so by the relay in use.** -/
theorem current_of_serving {heard : Nat × Nat → Prop} {s : Serving}
    (hpasses : Passes heard (a.dealings m) m.engine (a.perform m).engine)
    (hserving : a.serving? m = some s) : (a.perform m).engine.desk.current = some s.relay := by
  obtain ⟨job, hjob, hserves⟩ := Option.bind_eq_some_iff.mp hserving
  obtain ⟨hlaunching, hleaving, huse⟩ := serving_cases hserves
  have hdealings : a.dealings m = (m.engine.concluding? job).toList := by
    obtain ⟨todo, e⟩ := m
    cases a with
    | slowly refusal =>
      obtain ⟨rest, rfl⟩ : ∃ rest, todo = job :: rest := List.head?_eq_some_iff.mp hjob
      simp only [Incident.dealings, List.head?_cons, Option.map_some, Option.getD_some,
        slowDealings, hlaunching, hleaving]
    | errand a =>
      cases a with
      | plain a =>
        cases a with
        | job =>
          obtain ⟨rest, rfl⟩ : ∃ rest, todo = job :: rest := List.head?_eq_some_iff.mp hjob
          simp only [Incident.dealings, List.head?_cons, Option.map_some, Option.getD_some,
            jobDealings, hlaunching, hleaving]
        | _ => cases hjob
      | _ => cases hjob
    | _ => cases hjob
  have hrun := hpasses.run
  rw [hdealings] at hrun
  change (a.perform m).engine.station.current = _
  rcases huse with ⟨hcurrent, hnone⟩ | hready
  · rw [hnone] at hrun
    generalize (a.perform m).engine.station = s' at hrun
    cases hrun
    exact hcurrent
  · rw [hready] at hrun
    generalize (a.perform m).engine.station = s' at hrun
    cases hrun with
    | cons hstep hrest =>
      cases hrest
      cases hstep
      rfl

end Engine

end LanguageRelay
