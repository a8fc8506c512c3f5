import LanguageRelay.Proofs.Engine.Runs
/-!
# Correlation

Over any run of requests, commands and messages over one connection, what
becomes of a request that was written is decided by what comes for it, and by
nothing else (`correlation`): the first response to its number or the closing
of the connection, its cancellation, and the end of its window, whichever
comes first. A request that was woken runs on only in its turn, though, and
what comes before that may still count (`firstCome_not_decisive`).
-/

namespace LanguageRelay

namespace Engine

/-- What is said of a command that failed: the text of the response, if there is
one. -/
def failureText (command : String) (message : Option String) : String :=
  (message.filter fun text => !text.isEmpty).getD (command ++ " failed")

/-- A request that is to run has a job in line, and one that waits within a
window has its timer. -/
def Waits (l : Ledger) (q : Written) : Fate → Prop
  | .waiting =>
    q.ask.window = none ∨ .expire q.call q.seq ∈ l.jobs ∨
      ∃ t ∈ l.timers, t.job = .expire q.call q.seq
  | .gone _ => True
  | _ => .resume q.call ∈ l.jobs ∨ .passOn q.call q.seq ∈ l.jobs

/-- **Requests over a connection are correlated**, from a moment on. -/
structure Correlated (m : Moment) : Prop where
  /-- A call that runs for the first time while the connection is open writes
  its command under the next number. Its window runs from then on: the one it
  was given, else the one set up. -/
  written : ∀ {id : Nat} {name command : String} {arguments : Json} {window : Option Duration}
    {rest : List Job}, m.todo = .resume id :: rest →
    m.engine.call? id = some (.fresh name command arguments window false) →
    m.connection.closed = none → ∀ q : Written,
    q = ⟨id, name, m.connection.last + 1, askOf m.engine.setup command arguments window⟩ →
    (Action.job.perform m).engine.record =
      m.engine.record ++ [(0, .sent ⟨q.seq, command, arguments⟩)] ∧
    (Action.job.perform m).requests.Stands q (Fate.start q.ask) ∧
    ∀ w, q.ask.window = some w →
      (Action.job.perform m).requests.Timed q (m.engine.agenda.now + w.nanos)
  /-- From then on its fate is what its trace makes of it. -/
  follows : ∀ {q : Written} {fate : Fate}, m.requests.Stands q fate → ∀ actions,
    (act actions m).requests.Stands q (fate.run q (m.trace q actions))
  /-- A response to its number tells it the body, or that its command failed. -/
  responded : ∀ {q : Written} {message : Json} {r : Service.Response},
    Service.responseTo? message q.seq = some r →
    m.event (.receive message) q = some (.heard
      (if r.success then .ok r.body
        else .error (.analysis q.ask.command (failureText q.ask.command r.message))))
  /-- The closing of the connection tells it so. -/
  closed : ∀ (q : Written) (cause : Closure),
    m.event (.close cause) q = some (.heard (.error (.closed cause)))
  /-- No other message comes for it. -/
  unheard : ∀ (q : Written) (message : Json), Service.responseTo? message q.seq = none →
    m.event (.receive message) q = none
  /-- Its window is over only when its time has come. -/
  due : ∀ {q : Written} {time : Int}, m.requests.Timed q time →
    (∀ actions, (act actions m).requests.Timed q time) ∧
    (m.event .job q = some .expired → time ≤ m.engine.agenda.now)
  /-- If it waits and hears an outcome first, that is its outcome, unless it has
  no window and is cancelled before it has run. -/
  heard : ∀ {q : Written} {actions : List Action} {o : Except Failure Json} {rest : List Event},
    m.requests.Stands q .waiting → m.trace q actions = .heard o :: rest →
    q.ask.window ≠ none ∨ Event.cancelled ∉ Event.untilRun rest →
    ∃ fate, (act actions m).requests.Stands q fate ∧ fate.outcome? = some o
  /-- If it has no window and is cancelled first, that is its outcome. -/
  cancelled : ∀ {q : Written} {actions : List Action} {rest : List Event},
    m.requests.Stands q .waiting → m.trace q actions = .cancelled :: rest → q.ask.window = none →
    ∃ fate, (act actions m).requests.Stands q fate ∧ fate.outcome? = some (.error .cancelled)
  /-- If it has a window and is cancelled first, or its window is over first, it
  ends for that, unless it hears an outcome before it has run; a cancellation
  counts more than the end of the window. -/
  left : ∀ {q : Written} {actions : List Action} {event : Event} {why : Ending} {rest : List Event},
    m.requests.Stands q .waiting → q.ask.window ≠ none →
    event = .cancelled ∧ why = .cancelled ∨ event = .expired ∧ why = .timedOut →
    m.trace q actions = event :: rest →
    (Event.untilRun rest).findSome? Event.outcome? = none →
    ∃ why', (why' = why ∨ why' = .cancelled ∧ Event.cancelled ∈ rest) ∧
      ((act actions m).requests.Stands q (.leaving why') ∨
        (act actions m).requests.Stands q (.withdrawn why') ∨
        (act actions m).requests.Stands q (.gone (q.ending why')))
  /-- If it does hear one, that is its outcome. -/
  overtaken : ∀ {q : Written} {actions : List Action} {event : Event} {o : Except Failure Json}
    {rest : List Event},
    m.requests.Stands q .waiting → q.ask.window ≠ none →
    event = .cancelled ∨ event = .expired → m.trace q actions = event :: rest →
    (Event.untilRun rest).findSome? Event.outcome? = some o →
    ∃ fate, (act actions m).requests.Stands q fate ∧ fate.outcome? = some o
  /-- Once it has given its command up, it hears nothing more. -/
  withdrawn : ∀ {q : Written} {why : Ending}, m.requests.Stands q (.withdrawn why) → ∀ actions,
    ∃ why', (why' = why ∨ why' = .cancelled ∧ Event.cancelled ∈ m.trace q actions) ∧
      ((act actions m).requests.Stands q (.withdrawn why') ∨
        (act actions m).requests.Stands q (.gone (q.ending why')))
  /-- What has ended has ended. -/
  ended : ∀ {q : Written} {o : Except Failure Json}, m.requests.Stands q (.gone o) → ∀ actions,
    (act actions m).requests.Stands q (.gone o)
  /-- No request is lost, and none is told of twice. -/
  once : ∀ actions, (act actions m).requests.names.Perm
    (m.requests.names ++ actions.filterMap Action.requested?)
  /-- No request is forgotten. -/
  attended : ∀ {q : Written} {fate : Fate}, m.requests.Stands q fate → Waits m.requests q fate
  /-- No message makes the relay fail, and a message takes off the list only the
  command it is a response to. -/
  received : ∀ message : Json, ((m.engine.relay 0).receive message).2 = none ∧
    ((Action.receive message).perform m).connection.pending =
      m.connection.pending.filter fun p => (Service.responseTo? message p.seq).isNone
  /-- Two runs in which it is neither cancelled nor out of time, and hears the
  same outcomes in the same order, leave it with the same outcome, whatever else
  happens in them, and whenever. -/
  rearranged : ∀ {q : Written} {actions others : List Action},
    m.requests.Stands q .waiting →
    (∀ event ∈ m.trace q actions ++ m.trace q others, event ≠ .cancelled ∧ event ≠ .expired) →
    actions.filterMap (Action.outcome? q) = others.filterMap (Action.outcome? q) →
    ∃ fate fate', (act actions m).requests.Stands q fate ∧
      (act others m).requests.Stands q fate' ∧ fate.outcome? = fate'.outcome?
  /-- Messages in any order that has the responses to its number in the same
  order leave it the same. -/
  reordered : ∀ {q : Written} {fate : Fate} {messages others : List Json},
    m.requests.Stands q fate →
    (messages.filterMap fun message => Service.responseTo? message q.seq) =
      (others.filterMap fun message => Service.responseTo? message q.seq) →
    ∃ fate', (act (messages.map .receive) m).requests.Stands q fate' ∧
      (act (others.map .receive) m).requests.Stands q fate'

/-! ## What comes for a request -/

variable {m : Moment} {q : Written} {fate : Fate}

theorem outcomeOf_eq (command : String) (r : Service.Response) :
    Relay.outcomeOf command r =
      if r.success then .ok r.body
      else .error (.analysis command (failureText command r.message)) := by
  unfold Relay.outcomeOf failureText
  split
  · rfl
  · cases r.message with
    | none => rfl
    | some text => cases htext : text.isEmpty <;> simp [Option.filter, htext]

/-- A request hears the outcomes of its trace in the order in which they came
in. -/
theorem outcomes_trace (m : Moment) (q : Written) (actions : List Action) :
    (m.trace q actions).filterMap Event.outcome? = actions.filterMap (Action.outcome? q) := by
  induction actions generalizing m with
  | nil => rfl
  | cons a rest ih =>
    have hfirst : (m.event a q).bind Event.outcome? = a.outcome? q := by
      cases a with
      | receive message =>
        change ((Tidings.ofMessage message q.seq q.ask.command).map Event.heard).bind _ =
          Tidings.ofMessage message q.seq q.ask.command
        cases Tidings.ofMessage message q.seq q.ask.command <;> rfl
      | cancel id =>
        change (only id .cancelled q).bind _ = none
        unfold only
        split <;> rfl
      | job =>
        change (m.todo.head?.bind fun job => jobEvent job m.engine q).bind _ = none
        cases m.todo with
        | nil => rfl
        | cons job todo => exact bind_jobEvent job m.engine q
      | _ => rfl
    have hhead : (m.event a q).toList.filterMap Event.outcome? = (a.outcome? q).toList := by
      rw [← hfirst]
      cases m.event a q with
      | none => rfl
      | some event => cases event <;> rfl
    rw [Moment.trace, List.filterMap_append, ih, hhead]
    cases hout : a.outcome? q <;> simp [hout]

/-- Messages tell a request what the responses to its number say. -/
theorem trace_receive (m : Moment) (q : Written) (messages : List Json) :
    m.trace q (messages.map .receive) =
      (messages.filterMap fun message => Service.responseTo? message q.seq).map fun r =>
        .heard (Relay.outcomeOf q.ask.command r) := by
  induction messages generalizing m with
  | nil => rfl
  | cons message rest ih =>
    rw [List.map_cons, Moment.trace, ih]
    cases hto : Service.responseTo? message q.seq <;>
      simp [Moment.event, Tidings.ofMessage, hto]

/-- A window is over by the job that is next. -/
theorem expire_of_event (h : m.event .job q = some .expired) :
    .expire q.call q.seq ∈ m.requests.jobs := by
  obtain ⟨todo, e⟩ := m
  cases todo with
  | nil => cases h
  | cons job rest =>
    change jobEvent job e q = some .expired at h
    cases job with
    | expire id seq =>
      by_cases hmine : q.call = id ∧ q.seq = seq
      · obtain ⟨rfl, rfl⟩ := hmine
        exact List.mem_cons_self
      · simp [jobEvent, hmine] at h
    | resume id => simp [jobEvent] at h
    | _ => cases h

/-- A ledger in order forgets no request. -/
theorem waits_of_stands (hvalid : m.requests.Valid) (h : m.requests.Stands q fate) :
    Waits m.requests q fate := by
  cases h with
  | told => trivial
  | @running c hc hof =>
    have hattended := hvalid.attended _ hc
    obtain ⟨watch, outcome, cancelled, hwatch⟩ := hof
    change watch.Attended q.call q.seq m.requests.jobs m.requests.timers outcome cancelled
      at hattended
    change Waits m.requests q (watch.fate outcome cancelled)
    cases watch with
    | unbounded =>
      cases cancelled with
      | true => exact .inl (hattended (.inr rfl))
      | false =>
        cases outcome with
        | none => exact .inl (hwatch.mp rfl)
        | some o => exact .inl (hattended (.inl rfl))
    | windowed signal =>
      cases signal with
      | pending =>
        cases outcome with
        | none =>
          obtain ⟨rfl, hwait⟩ := hattended
          exact .inr hwait
        | some o => exact .inr hattended.2
      | raised => cases outcome <;> cases cancelled <;> exact .inl hattended
      | cancelled => cases outcome <;> cases cancelled <;> exact .inl hattended
    | ending why => exact hattended.symm

/-- A window runs from the time its command is written. -/
theorem timed_of_writes {link link' : Link} {todo js : List Job} {id : Nat} {name : String}
    {ask : Ask} {watch : Watch} {outcome : Option (Except Failure Json)} {set : List (Timer Job)}
    {e e' : Engine}
    (h : Writes link link' todo id name ask watch outcome js set e e')
    (hvalid : (e.ledger link (.resume id :: todo)).Valid) {window : Duration}
    (hwindow : ask.window = some window) :
    (e'.ledger link' todo).Timed ⟨id, name, link.last + 1, ask⟩ (e.agenda.now + window.nanos) := by
  rw [h.ledger]
  refine ⟨h.last, fun t ht hjob => ?_, fun hjob => ?_⟩
  · rcases List.mem_append.mp ht with ht | ht
    · -- The number was not given out before.
      obtain ⟨id', seq, hold, hle⟩ := hvalid.timers t ht
      rw [hold] at hjob
      cases hjob
      exact absurd hle (Nat.not_succ_le_self _)
    · obtain ⟨-, window', hwindow', hdue⟩ := h.timed t ht
      rw [hwindow] at hwindow'
      cases hwindow'
      exact hdue
  · rcases List.mem_append.mp hjob with hjob | hjob
    · have hle := hvalid.jobs _ (List.mem_cons_of_mem _ hjob)
      exact absurd hle (Nat.not_succ_le_self _)
    · cases (h.posted _ hjob).1

/-- A request that is written stands at its start. -/
theorem stands_of_writes {link link' : Link} {todo js : List Job} {id : Nat} {name command : String}
    {arguments : Json} {window : Option Duration} {ask : Ask} {cancelled : Bool} {watch : Watch}
    {outcome : Option (Except Failure Json)} {set : List (Timer Job)} {e e' : Engine}
    (h : Writes link link' todo id name ask watch outcome js set e e')
    (hvalid : (e.ledger link (.resume id :: todo)).Valid)
    (hcall : e.call? id = some (.fresh name command arguments window cancelled)) :
    (e'.ledger link' todo).Stands ⟨id, name, link.last + 1, ask⟩ (Fate.start ask) := by
  rw [h.ledger, ← h.fate]
  have hmem : (id, Call.asks name (link.last + 1) ask watch outcome false) ∈
      Table.update id (fun _ => .asks name (link.last + 1) ask watch outcome false) e.calls :=
    (Table.mem_update_iff hvalid.apart.single).mpr (.inl ⟨rfl, _, mem_of_call? hcall, rfl⟩)
  exact .running hmem (.intro watch outcome false h.watches)

/-- A request that waits within a window is to leave when it is cancelled or its
window is over. -/
theorem next_waiting {event : Event} {why : Ending} (hwindow : q.ask.window ≠ none)
    (hevent : event = .cancelled ∧ why = .cancelled ∨ event = .expired ∧ why = .timedOut) :
    Fate.next q .waiting event = .leaving why := by
  rcases hevent with ⟨rfl, rfl⟩ | ⟨rfl, rfl⟩
  · exact if_neg hwindow
  · exact if_neg hwindow

/-- A request stands where its trace takes it. -/
theorem stands_trace (h : m.InOrder) (hstands : m.requests.Stands q fate) {actions : List Action}
    {events : List Event} (htrace : m.trace q actions = events) :
    (act actions m).requests.Stands q (fate.run q events) :=
  htrace ▸ stands_act h hstands actions

/-- A call that runs for the first time writes its command. -/
theorem written_of_inOrder (h : m.InOrder) {id : Nat} {name command : String} {arguments : Json}
    {window : Option Duration} {rest : List Job} (htodo : m.todo = .resume id :: rest)
    (hcall : m.engine.call? id = some (.fresh name command arguments window false))
    (hopen : m.connection.closed = none) {q : Written}
    (hq : q = ⟨id, name, m.connection.last + 1, askOf m.engine.setup command arguments window⟩) :
    (Action.job.perform m).engine.record =
        m.engine.record ++ [(0, .sent ⟨q.seq, command, arguments⟩)] ∧
      (Action.job.perform m).requests.Stands q (Fate.start q.ask) ∧
      ∀ w, q.ask.window = some w →
        (Action.job.perform m).requests.Timed q (m.engine.agenda.now + w.nanos) := by
  obtain ⟨todo, e⟩ := m
  cases htodo
  cases hq
  obtain ⟨link', watch, outcome, js, set, hwrites⟩ :=
    writes_resume h.plain h.valid.link hcall hopen rest
  have hrequests : (Action.job.perform ⟨.resume id :: rest, e⟩).requests =
      (e.resume id).ledger link' rest := by
    change (e.resume id).ledger (Moment.connection ⟨rest, e.resume id⟩) rest = _
    rw [connection_eq (m := ⟨rest, e.resume id⟩) hwrites.plain]
  rw [hrequests]
  exact ⟨hwrites.record, stands_of_writes hwrites h.valid hcall,
    fun w hw => timed_of_writes hwrites h.valid hw⟩

/-- A message takes off the list the command it is a response to. -/
theorem received_of_inOrder (h : m.InOrder) (message : Json) :
    ((m.engine.relay 0).receive message).2 = none ∧
      ((Action.receive message).perform m).connection.pending =
        m.connection.pending.filter fun p => (Service.responseTo? message p.seq).isNone := by
  obtain ⟨link', fx, hf, hbrings, hpending⟩ :=
    Relay.receive_upon m.engine.setup h.valid.link.shut h.valid.link.listed message
  have hplain :=
    (step_operate (Relay.receive message) h.plain h.valid (congrArg Prod.fst hf) hbrings).1
  have hconnection : ((Action.receive message).perform m).connection = link' :=
    connection_eq (m := (Action.receive message).perform m) hplain
  rw [hconnection, h.plain.relay]
  exact ⟨congrArg Prod.snd hf, hpending⟩

/-! ## The main result -/

/-- **Requests are correlated while the engine is in order.** -/
theorem correlated_of_inOrder (h : m.InOrder) : Correlated m where
  written htodo hcall hopen _ hq := written_of_inOrder h htodo hcall hopen hq
  follows hstands actions := stands_act h hstands actions
  responded hto := by simp [Moment.event, Tidings.ofMessage, hto, outcomeOf_eq]
  closed _ _ := rfl
  unheard q message hto := by simp [Moment.event, Tidings.ofMessage, hto]
  due htimed := ⟨timed_act h htimed, fun hevent => htimed.job (expire_of_event hevent)⟩
  heard hstands htrace hwindow :=
    ⟨_, stands_trace h hstands htrace, Fate.outcome?_run_decided hwindow _⟩
  cancelled {q actions rest} hstands htrace hnone := by
    have hnext : Fate.next q .waiting .cancelled = .decided (.error .cancelled) := if_pos hnone
    have hafter := stands_trace h hstands htrace
    rw [Fate.run_cons, hnext] at hafter
    exact ⟨_, hafter, Fate.outcome?_run_cancelled rest⟩
  left {q actions event why rest} hstands hwindow hevent htrace hdeaf := by
    have hafter := stands_trace h hstands htrace
    rw [Fate.run_cons, next_waiting hwindow hevent] at hafter
    obtain ⟨why', hwhy, hrun | hrun | hrun⟩ := Fate.run_leaving (q := q) why hdeaf
    · exact ⟨why', hwhy, .inl (hrun ▸ hafter)⟩
    · exact ⟨why', hwhy, .inr (.inl (hrun ▸ hafter))⟩
    · exact ⟨why', hwhy, .inr (.inr (hrun ▸ hafter))⟩
  overtaken {q actions event o rest} hstands hwindow hevent htrace hheard := by
    obtain ⟨why, hwhy⟩ : ∃ why : Ending,
        event = .cancelled ∧ why = .cancelled ∨ event = .expired ∧ why = .timedOut := by
      rcases hevent with hcancelled | hexpired
      · exact ⟨.cancelled, .inl ⟨hcancelled, rfl⟩⟩
      · exact ⟨.timedOut, .inr ⟨hexpired, rfl⟩⟩
    have hafter := stands_trace h hstands htrace
    rw [Fate.run_cons, next_waiting hwindow hwhy] at hafter
    exact ⟨_, hafter, Fate.outcome?_run_leaving hwindow why hheard⟩
  withdrawn {q why} hstands actions := by
    have hafter := stands_act h hstands actions
    obtain ⟨why', hwhy, hrun | hrun⟩ := Fate.run_withdrawn (q := q) why (m.trace q actions)
    · exact ⟨why', hwhy, .inl (hrun ▸ hafter)⟩
    · exact ⟨why', hwhy, .inr (hrun ▸ hafter)⟩
  ended {q o} hstands actions := by
    have hafter := stands_act h hstands actions
    rwa [Fate.run_gone] at hafter
  once actions := names_act h actions
  attended hstands := waits_of_stands h.valid hstands
  received message := received_of_inOrder h message
  rearranged {q actions others} hstands hcalm hsame := by
    refine ⟨_, _, stands_act h hstands actions, stands_act h hstands others, ?_⟩
    rw [Fate.outcome?_run_waiting fun event hevent => hcalm event (List.mem_append_left _ hevent),
      Fate.outcome?_run_waiting fun event hevent => hcalm event (List.mem_append_right _ hevent),
      ← List.head?_filterMap, ← List.head?_filterMap, outcomes_trace, outcomes_trace, hsame]
  reordered {q fate messages others} hstands hsame := by
    refine ⟨_, stands_act h hstands _, ?_⟩
    rw [trace_receive, hsame, ← trace_receive m]
    exact stands_act h hstands _

/-- **Correlation.** -/
theorem correlation (setup : Setup) (actions : List Action) :
    Correlated (act actions (.new setup)) :=
  correlated_of_inOrder (inOrder_act (inOrder_new setup) actions)

/-! ## What comes before a request has run -/

/-- A setup without a window. -/
def unhurried : Setup := ⟨[], .ofMillis 0, false, none, false, none⟩

/-- The run in which one request is made and written, with a window if one is
given. -/
def oneWritten (window : Option Duration) : Moment :=
  act [.request "a" "quickinfo" .null window, .turn, .job] (.new unhurried)

/-- The request that was written. -/
def theOne (window : Option Duration) : Written :=
  ⟨1, "a", 1, askOf unhurried "quickinfo" .null window⟩

/-- The response to it, with the body 5. -/
def five : Json := .obj (Service.Response.toFields ⟨0, "quickinfo", 1, true, none, .int 5⟩)

/-- **What comes first need not decide**: a request without a window that was
answered ends as cancelled if it is cancelled before it has run, and one with
a window that was cancelled ends with the answer that comes before it has
run. -/
theorem firstCome_not_decisive :
    ((oneWritten none).requests.Stands (theOne none) .waiting ∧
      (oneWritten none).trace (theOne none) [.receive five, .cancel 1, .turn, .job] =
        [.heard (.ok (.int 5)), .cancelled, .ranOn] ∧
      (act [.receive five, .cancel 1, .turn, .job] (oneWritten none)).engine.ended =
        [("a", .error .cancelled)]) ∧
    ((oneWritten (some (.ofMillis 1000))).requests.Stands
        (theOne (some (.ofMillis 1000))) .waiting ∧
      (oneWritten (some (.ofMillis 1000))).trace (theOne (some (.ofMillis 1000)))
          [.cancel 1, .receive five, .turn, .job] =
        [.cancelled, .heard (.ok (.int 5)), .ranOn] ∧
      (act [.cancel 1, .receive five, .turn, .job]
          (oneWritten (some (.ofMillis 1000)))).engine.ended =
        [("a", .ok (.raw (.int 5)))]) := by
  refine ⟨⟨?_, ?_, ?_⟩, ?_, ?_, ?_⟩
  · exact .running List.mem_cons_self
      (.intro .unbounded none false (by simp [theOne, askOf, unhurried]))
  · with_unfolding_all rfl
  · with_unfolding_all rfl
  · exact .running List.mem_cons_self
      (.intro (.windowed .pending) none false (by simp [theOne, askOf]))
  · with_unfolding_all rfl
  · with_unfolding_all rfl

end Engine

end LanguageRelay
