import LanguageRelay.Proofs.Editing.Jobs
/-!
# What deeds do

A deed either does something to the relay at once (`Does`), and what the relay
did is taken in, or it is a chain of shifts (`perform_cases`). Both keep the
engine orderly, so it is so after any deeds (`orderly_work`).
-/

namespace LanguageRelay

namespace Relay

variable {P : Service.Command → Prop} {whole : Prop} {r r' : Relay}

/-! ## What the editor announces keeps records sound -/

theorem sound_autoSchedule (uri : String) {done : Relay × Option Failure} (h : done.1.Sound) :
    (autoSchedule uri done).1.Sound := by
  obtain ⟨r, failure⟩ := done
  cases failure with
  | some e => exact h
  | none =>
    simp only [autoSchedule]
    split
    · exact sound_perform (.schedule uri) h
    · exact h

theorem sound_notify (h : r.Sound) (name : String) (arguments : Json) :
    (r.notify name arguments).1.Sound := by
  cases htaken : r.link.refusal? with
  | some cause =>
    rw [notify_of_refused htaken]
    exact h.of_same rfl rfl rfl rfl (Nat.le_succ _)
  | none =>
    rw [notify_of_taken htaken]
    exact h.of_same rfl rfl rfl rfl (Nat.le_succ _)

theorem sound_didClose (h : r.Sound) (uri : String) : (r.didClose uri).1.Sound := by
  have hclosed : (r.closeDocument uri).1.Sound := sound_perform (.closeDocument uri) h
  unfold didClose
  split
  · rename_i heq
    rwa [heq] at hclosed
  · rename_i heq
    rw [heq] at hclosed
    exact hclosed.of_same rfl rfl rfl rfl (Nat.le_refl _)

theorem sound_shutdown (h : r.Sound) : r.shutdown.1.Sound := by
  have hsent := sound_notify h Service.exitName .null
  unfold shutdown
  split
  · exact h
  · split
    all_goals
      rename_i heq
      rwa [heq] at hsent

/-! ## The connection -/

/-- A response takes the command it is for off the list, and answers it unless
it was given up. -/
theorem resolve_cases (response : Service.Response) (r : Relay) :
    r.resolve response = r.log .warning (strayResponse response) ∨
      ∃ p ∈ r.link.pending, ∃ fx, r.resolve response =
          { r.unlist p.seq with outbox := r.outbox ++ fx } ∧
        (p.settled = true ∧ fx = [] ∨
          p.settled = false ∧ fx = [.answered p.seq (outcomeOf p.command response)]) := by
  unfold resolve
  cases hfound : r.pendingFor? response.requestSeq with
  | none => exact .inl rfl
  | some p =>
    refine .inr ⟨p, List.mem_of_find?_eq_some hfound, ?_⟩
    cases hsettled : p.settled with
    | true => exact ⟨[], by simp [hsettled, unlist], .inl ⟨rfl, rfl⟩⟩
    | false => exact ⟨[_], by simp [hsettled, unlist, emit], .inr ⟨rfl, rfl⟩⟩

theorem linkSound_resolve (h : r.link.Sound) (response : Service.Response) :
    (r.resolve response).link.Sound := by
  rcases resolve_cases response r with heq | ⟨p, hp, fx, heq, -⟩
  · rw [heq]
    exact h
  · rw [heq]
    exact (Link.touched_unlist h p.seq).sound

theorem linkSound_disconnect (h : r.link.Sound) (cause : Closure) :
    (r.disconnect cause).link.Sound := by
  cases hup : r.link.closed with
  | some first =>
    rwa [disconnect_of_closed (by simp [hup])]
  | none =>
    rw [disconnect_of_open hup]
    exact ⟨List.nodup_nil, by simp, fun _ => rfl, h.unlimited⟩

theorem last_resolve (response : Service.Response) (r : Relay) :
    (r.resolve response).link.last = r.link.last := by
  rcases resolve_cases response r with heq | ⟨p, hp, fx, heq, -⟩ <;> rw [heq] <;> rfl

theorem last_disconnect (cause : Closure) (r : Relay) :
    (r.disconnect cause).link.last = r.link.last := by
  cases hup : r.link.closed with
  | some first => rw [disconnect_of_closed (by simp [hup])]
  | none => rw [disconnect_of_open hup]

/-- A message is a response, or it is none. -/
theorem receive_cases (message : Json) (r : Relay) :
    (∃ response, Service.Message.ofJson message = .ok (.response response) ∧
      r.receive message = (r.resolve response, none)) ∨
    ∀ response, Service.Message.ofJson message ≠ .ok (.response response) := by
  by_cases h : ∃ response, Service.Message.ofJson message = .ok (.response response)
  · obtain ⟨response, hresponse⟩ := h
    exact .inl ⟨response, hresponse, by simp [receive, hresponse]⟩
  · exact .inr fun response hresponse => h ⟨response, hresponse⟩

end Relay

namespace Engine

variable {t : Terms} {m : Moment} {d : Deed} {e : Engine} {r r' : Relay}

/-- **What a deed does to the relay**, if it does something at once. -/
inductive Does (t : Terms) (r : Relay) : Deed → Relay → Prop where
  | opened (uri languageId : String) (version : Int) (text : String) :
      Does t r (.opened uri languageId version text) (r.didOpen uri languageId version text).1
  | changed (uri : String) (version : Int) (changes : List TextChange) :
      Does t r (.changed uri version changes) (r.didChange uri version changes).1
  | closed (uri : String) : Does t r (.closed uri) (r.didClose uri).1
  | ended : Does t r .ended r.shutdown.1
  | scheduled (uri : String) : Does t r (.scheduled uri) (r.schedule uri)
  | told (name : String) (arguments : Json) (htells : t.tells name arguments) :
      Does t r (.plain (.notify name arguments)) (r.notify name arguments).1
  | heard (message : Json) (hhears : t.hears r message) :
      Does t r (.plain (.receive message)) (r.receive message).1
  | disconnected (cause : Closure) : Does t r (.plain (.close cause)) (r.disconnect cause)

/-- **What a deed may write at once**: a command about its document, the one that
ends the analysis server, one that is written as it is, or an error check. -/
inductive Deed.Writes (r : Relay) : Deed → Service.Command → Prop where
  | opens {uri languageId version text seq file} (hfile : Uri.fileOf? uri = some file) :
      Writes r (.opened uri languageId version text)
        ⟨seq, Service.openName, Relay.openArguments r.setup.root file languageId text⟩
  | changes {uri version changes seq s range text} (hopen : r.session? uri = some s) :
      Writes r (.changed uri version changes)
        ⟨seq, Service.changeName, Relay.changeArguments s.file range text⟩
  | closes {uri seq s} (hopen : r.session? uri = some s) :
      Writes r (.closed uri) ⟨seq, Service.closeName, Service.fileArgument s.file⟩
  | ends {seq} : Writes r .ended ⟨seq, Service.exitName, .null⟩
  | tells {name arguments seq} : Writes r (.plain (.notify name arguments)) ⟨seq, name, arguments⟩
  | checks {d command} (hchecks : ChecksOpen r command) (hd : ∀ uri, d ≠ .closed uri) :
      Writes r d command

/-- What a deed is to the connection: it abides by the rules, or a response
came in, or an open connection was closed. -/
theorem does_cases (hdoes : Does t r d r') (hsound : r.Sound) :
    Relay.Abides (d.Writes r)
        (∀ message, d = .plain (.receive message) → (r.receive message).2 = none) r r' ∨
      (∃ message response, d = .plain (.receive message) ∧
        Service.Message.ofJson message = .ok (.response response) ∧ r' = r.resolve response) ∨
      ∃ cause, d = .plain (.close cause) ∧ r.link.closed = none ∧ r' = r.disconnect cause := by
  have hcheck : ∀ d : Deed, (∀ uri, d ≠ .closed uri) → ∀ seq u c, r.check? u = some c →
      d.Writes r ⟨seq, Service.errorCheckName, Relay.checkArguments c.file⟩ :=
    fun d hd seq u c hc => .checks (checksOpen_of_check hsound hc seq) hd
  cases hdoes with
  | opened uri languageId version text =>
    exact .inl (Relay.abides_autoSchedule uri (Relay.abides_openDocument
      (fun _ _ hfile => .opens hfile) (hcheck _ (by simp))))
  | changed uri version changes =>
    exact .inl (Relay.abides_autoSchedule uri (Relay.abides_changeDocument
      (fun _ _ _ _ hopen => .changes hopen) (hcheck _ (by simp)) _ _))
  | closed uri => exact .inl (Relay.abides_didClose fun _ _ hopen => .closes hopen)
  | ended => exact .inl (Relay.abides_shutdown (fun _ => .ends) r)
  | scheduled uri => exact .inl (Relay.abides_schedule uri r)
  | told name arguments => exact .inl (Relay.abides_notify (fun _ => .tells) r)
  | heard message =>
    rcases Relay.receive_cases message r with ⟨response, hresponse, heq⟩ | hmessage
    · exact .inr (.inl ⟨message, response, rfl, hresponse, by rw [heq]⟩)
    · refine .inl (.of_whole (fun h => h message rfl) (Relay.abides_receive hmessage ?_ hsound.single
        (hcheck _ (by simp))))
      exact fun uri c hcheck hout => hsound.up hcheck hout
  | disconnected cause =>
    cases hup : r.link.closed with
    | none => exact .inr (.inr ⟨cause, rfl, rfl, rfl⟩)
    | some first =>
      exact .inl (by rw [Relay.disconnect_of_closed (by simp [hup])]; exact .refl _ _ r)

theorem sound_does (hdoes : Does t r d r') (h : r.Sound) : r'.Sound := by
  cases hdoes with
  | opened uri languageId version text =>
    exact Relay.sound_autoSchedule uri
      (Relay.sound_perform (.openDocument uri languageId version text) h)
  | changed uri version changes =>
    exact Relay.sound_autoSchedule uri (Relay.sound_perform (.changeDocument uri version changes) h)
  | closed uri => exact Relay.sound_didClose h uri
  | ended => exact Relay.sound_shutdown h
  | scheduled uri => exact Relay.sound_perform (.schedule uri) h
  | told name arguments => exact Relay.sound_notify h name arguments
  | heard message => exact Relay.sound_perform (.receive message) h
  | disconnected cause => exact Relay.sound_perform (.disconnect cause) h

theorem link_does (hdoes : Does t r d r') (hsound : r.Sound) (h : r.link.Sound) :
    r'.link.Sound ∧ r.link.last ≤ r'.link.last := by
  rcases does_cases hdoes hsound with habides | ⟨-, response, -, -, rfl⟩ | ⟨cause, -, -, rfl⟩
  · exact ⟨habides.linkSound h, habides.last⟩
  · exact ⟨Relay.linkSound_resolve h response, Nat.le_of_eq (Relay.last_resolve response r).symm⟩
  · exact ⟨Relay.linkSound_disconnect h cause, Nat.le_of_eq (Relay.last_disconnect cause r).symm⟩

/-- A moment is orderly: its engine is, and so are the jobs left in the turn. -/
structure Moment.Orderly (m : Moment) : Prop where
  engine : m.engine.Orderly
  todo : ∀ job ∈ m.todo, job.Local

theorem orderly_new (setup : Setup) : (Moment.new setup).Orderly where
  engine :=
    { alone := rfl
      collected := rfl
      sound := Relay.sound_new setup
      link := ⟨List.nodup_nil, by simp [Moment.new, withRelay, Engine.relay, Relay.new],
        fun _ => rfl, rfl⟩
      apart := ⟨List.nodup_nil, by simp [Moment.new, withRelay, Engine.new]⟩
      made := by simp [Moment.new, withRelay, Engine.new]
      regular := by simp [Moment.new, withRelay, Engine.new]
      ready := by simp [Moment.new, withRelay, Engine.new, Agenda.empty]
      timers := by simp [Moment.new, withRelay, Engine.new, Agenda.empty] }
  todo := by simp [Moment.new]

/-- Jobs that come due are of the timers. -/
theorem mem_collectDue {a : Agenda Job} {job : Job} (h : job ∈ a.collectDue.ready) :
    job ∈ a.ready ∨ ∃ timer ∈ a.timers, timer.job = job := by
  rcases List.mem_append.mp h with h | h
  · exact .inl h
  · obtain ⟨timer, htimer, rfl⟩ := List.mem_map.mp h
    exact .inr ⟨timer, List.mem_of_mem_filter ((List.mergeSort_perm _ _).mem_iff.mp htimer), rfl⟩

theorem moment_operate {α : Type} (f : Relay → Relay × α) (m : Moment) :
    ({ m with engine := (m.engine.operate 0 f).1 } : Moment) =
      { m with engine := m.engine.takeIn (f (m.engine.relay 0)).1 } := by
  rw [operate_eq]

/-- **A deed does something to the relay at once, or it is a chain of
shifts.** -/
theorem perform_cases (h : m.Orderly) (hmeets : Deed.Meets t m d) :
    (∃ r, Does t (m.engine.relay 0) d r ∧ d.perform m = { m with engine := m.engine.takeIn r }) ∨
      Shifts t m.engine (d.perform m).engine := by
  have hmade : ∀ role work, role.Local → work.Local →
      (∀ i q, work = .query i q → t.puts m.engine q) →
      Shifts t m.engine (m.engine.spawn role work) := fun role work hrole hwork hputs =>
    .single (.made role work hrole hwork hputs)
  cases d with
  | opened uri languageId version text => exact .inl ⟨_, .opened .., moment_operate _ m⟩
  | changed uri version changes => exact .inl ⟨_, .changed .., moment_operate _ m⟩
  | closed uri => exact .inl ⟨_, .closed uri, moment_operate _ m⟩
  | ended => exact .inl ⟨_, .ended, moment_operate _ m⟩
  | scheduled uri => exact .inl ⟨_, .scheduled uri, moment_operate _ m⟩
  | query name q =>
    exact .inr (hmade (.client name) (.query 0 q) trivial rfl fun i q' heq => by cases heq; exact hmeets)
  | check name uri => exact .inr (hmade (.client name) (.check 0 uri) trivial rfl (by simp))
  | checkAll name => exact .inr (hmade (.client name) (.checkAll 0) trivial rfl (by simp))
  | plain a =>
    cases a with
    | request name command arguments window =>
      exact .inr (hmade (.client name) (.query 0 (.command command arguments window)) trivial rfl
        fun i q' heq => by cases heq; exact hmeets)
    | notify name arguments => exact .inl ⟨_, .told name arguments hmeets, moment_operate _ m⟩
    | receive message => exact .inl ⟨_, .heard message hmeets, moment_operate _ m⟩
    | close cause => exact .inl ⟨_, .disconnected cause, moment_operate _ m⟩
    | cancel id => exact .inr (shifts_cancel h.engine id)
    | pass time => exact .inr (.single (.timed _ h.engine.ready h.engine.timers))
    | turn =>
      obtain ⟨todo, e⟩ := m
      cases todo with
      | cons job rest => exact .inr .refl
      | nil =>
        refine .inr (.single (.timed _ (by simp) fun timer htimer => ?_))
        exact h.engine.timers timer (List.mem_of_mem_filter htimer)
    | job =>
      obtain ⟨todo, e⟩ := m
      cases todo with
      | nil => exact .inr .refl
      | cons job rest => exact .inr (shifts_dispatch h.engine (h.todo job List.mem_cons_self))

/-- The jobs left in a turn are of the turn, or a turn begins. -/
theorem todo_perform (h : m.Orderly) (d : Deed) : ∀ job ∈ (d.perform m).todo, job.Local := by
  cases d with
  | plain a =>
    cases a with
    | turn =>
      obtain ⟨todo, e⟩ := m
      cases todo with
      | cons job rest => exact h.todo
      | nil =>
        intro job hjob
        rcases mem_collectDue hjob with hjob | ⟨timer, htimer, rfl⟩
        · exact h.engine.ready job hjob
        · exact h.engine.timers timer htimer
    | job =>
      obtain ⟨todo, e⟩ := m
      cases todo with
      | nil => exact h.todo
      | cons job rest => exact fun j hj => h.todo j (List.mem_cons_of_mem _ hj)
    | _ => exact h.todo
  | _ => exact h.todo

/-- **Every deed keeps order.** -/
theorem orderly_perform (h : m.Orderly) (hmeets : Deed.Meets t m d) : (d.perform m).Orderly := by
  refine ⟨?_, todo_perform h d⟩
  rcases perform_cases h hmeets with ⟨r, hdoes, heq⟩ | hshifts
  · obtain ⟨hlink, hlast⟩ := link_does hdoes h.engine.sound h.engine.link
    rw [heq]
    exact orderly_takeIn h.engine (sound_does hdoes h.engine.sound) hlink hlast
  · exact h.engine.shifts hshifts

/-- **The engine is orderly after any deeds.** -/
theorem orderly_work (setup : Setup) {deeds : List Deed} (hmeet : Meet t deeds (.new setup)) :
    (work deeds (.new setup)).Orderly :=
  work_induction (orderly_new setup) hmeet fun _ _ h hmeets => orderly_perform h hmeets

end Engine

end LanguageRelay
