import LanguageRelay.Proofs.Editing.Listing
/-!
# The list stays in tally, job by job

What the engine does of its own accord is followed function by function, as in
`Jobs`, but for the list of commands alone: each leaves it in tally with the
calls (`tally_dispatch`, `tally_cancel`). That needs no order of the relay's
documents and checks, which a write that is refused may upset.
-/

namespace LanguageRelay

namespace Engine

variable {b e : Engine} {todo : List Job} {id seq : Nat} {c : Call} {ask : Ask} {watch : Watch}
variable {outcome : Option (Except Failure Json)} {after : After}

/-! ## Running for the first time -/

/-- A call that has not run has no entry. -/
theorem listing?_of_created {work : Work} (hstage : c.stage = .created work) :
    c.listing? = none := by
  simp [Call.listing?, hstage]

theorem tally_query (h : Tally b (some id) todo e) (hcall : e.call? id = some c)
    (hfree : ¬ c.Waits) (q : Query) : Tally b none todo (e.query id 0 q) := by
  unfold query
  cases q.first (e.relay 0) with
  | error f => exact h.finish hcall _
  | ok a => exact h.ask hcall hfree a

/-- A call without an entry comes to wait for something else. -/
theorem tally_await (h : Tally b (some id) todo e) (hcall : e.call? id = some c)
    (hentry : c.listing? = none) {stage : Stage}
    (hstage : (∃ i, stage = .checking i none ∧ i = 0) ∨
      ∃ parts left, stage = .gathering parts left none false) :
    Tally b none todo (e.await id stage) := by
  have hrole := (h.regular _ (mem_of_call? hcall)).role
  have hnext : ∀ c' : Call, c' = ⟨c.role, stage, false⟩ → c'.listing? = c.listing? ∧
      c'.Regular (e.relay 0).link.last ∧ (∀ seq command, c'.want? ≠ some (.response seq command)) ∧
      ∀ jobs timers, c'.Attended id jobs timers := by
    rintro _ rfl
    rw [hentry]
    rcases hstage with ⟨i, rfl, rfl⟩ | ⟨parts, left, rfl⟩
    · exact ⟨rfl, ⟨hrole, rfl, fun _ => rfl⟩, by simp [Call.want?], fun _ _ => trivial⟩
    · exact ⟨rfl, ⟨hrole, trivial⟩, by simp [Call.want?], fun _ _ => trivial⟩
  obtain ⟨hsame, hregular, hwant, hattended⟩ := hnext _ rfl
  have hamended := Tally.amend [] [] h (by simp) hcall (.inr rfl) (by simp) hsame hregular
    (fun seq command heq => absurd heq (hwant seq command)) (hattended _ _)
  rw [await_of_call hcall]
  simpa using hamended

theorem tally_check (h : Tally b (some id) todo e) (hcall : e.call? id = some c)
    (hfree : ¬ c.Waits) (hentry : c.listing? = none) (uri : String) :
    Tally b none todo (e.check id 0 uri) := by
  have htaken := h.discreet (Relay.discreet_requestCheck uri id (e.relay 0))
  have hcall' := call?_takeIn h.apart hcall hfree ((e.relay 0).requestCheck uri id).1
  unfold check
  rw [operate_eq]
  generalize (e.relay 0).requestCheck uri id = asked at htaken hcall' ⊢
  obtain ⟨r, result⟩ := asked
  cases result with
  | error f => exact htaken.finish hcall' _
  | ok waits =>
    cases waits with
    | true => exact tally_await htaken hcall' hentry (.inl ⟨0, rfl, rfl⟩)
    | false => exact htaken.finish hcall' _

theorem tally_spawnChecks {whole : Nat} {out : Option Nat} (uris : List String)
    (h : Tally b out todo e) (hcall : e.call? whole = some c) :
    Tally b out todo (e.spawnChecks whole 0 uris) ∧
      (e.spawnChecks whole 0 uris).call? whole = some c := by
  induction uris generalizing e with
  | nil => exact ⟨h, hcall⟩
  | cons uri rest ih => exact ih (h.spawn trivial rfl) (call?_spawn h.made hcall _ _)

theorem tally_checkAll (h : Tally b (some id) todo e) (hcall : e.call? id = some c)
    (hentry : c.listing? = none) : Tally b none todo (e.checkAll id 0) := by
  unfold checkAll
  simp only []
  split
  · exact h.finish hcall _
  · obtain ⟨hspawned, hcall'⟩ := tally_spawnChecks (e.relay 0).uris h hcall
    exact tally_await hspawned hcall' hentry (.inr ⟨_, _, rfl⟩)

/-- A call runs for the first time. -/
theorem tally_begin (h : Tally b (some id) todo e) (hcall : e.call? id = some c) {work : Work}
    (hstage : c.stage = .created work) : Tally b none todo (e.begin id work) := by
  have hfree := free_of_created hstage
  have hentry := listing?_of_created hstage
  have hlocal := (h.regular _ (mem_of_call? hcall)).stage
  rw [hstage] at hlocal
  cases work with
  | query i q =>
    cases (show i = 0 from hlocal)
    exact tally_query h hcall hfree q
  | check i uri =>
    cases (show i = 0 from hlocal)
    exact tally_check h hcall hfree hentry uri
  | checkAll i =>
    cases (show i = 0 from hlocal)
    exact tally_checkAll h hcall hentry
  | handle handler => exact absurd hlocal fun hfalse => hfalse

/-! ## Running on -/

/-- A call goes on with an outcome. -/
theorem tally_proceed (h : Tally b (some id) todo e) (hcall : e.call? id = some c)
    (hfree : ¬ c.Waits) (o : Except Failure Json) :
    Tally b none todo (e.proceed id 0 (.answer after) o) := by
  unfold proceed
  simp only []
  cases after.proceed (e.relay 0).setup.window o with
  | finished o => exact h.finish hcall o
  | ask a => exact h.ask hcall hfree a

/-- Leaving its command, a call goes on. -/
theorem tally_leave_proceed (h : Tally b none (.resume id :: todo) e) (hcall : e.call? id = some c)
    {told : Except Failure Json}
    (hstage : c.stage = .asking 0 seq ask watch (some told) (.answer after))
    (o : Except Failure Json) :
    Tally b none todo ((e.leave id 0 seq).proceed id 0 (.answer after) o) := by
  have hleft : Tally b (some id) todo (e.leave id 0 seq) :=
    Tally.leave [.resume id] h (by simp [Job.call?]) hcall (by simp [Call.seq?, hstage])
  exact tally_proceed hleft hcall (by simp [Call.Waits, hstage]) o

/-- A call gives its command up. -/
theorem tally_giveUp (h : Tally b none (.resume id :: todo) e) (hcall : e.call? id = some c)
    (hstage : c.stage = .asking 0 seq ask watch none (.answer after)) (why : Ending) :
    Tally b none todo (e.giveUp id 0 seq ask why (.answer after)) := by
  have hcall' : (e.mapRelay 0 (Relay.withdraw seq)).call? id = some c := hcall
  unfold giveUp
  rw [await_of_call hcall']
  refine Tally.withdraw [.resume id] [.passOn id seq] (.ending why) h (by simp [Job.call?]) hcall
    (by simp [Job.Local]) hstage false (.inl ?_)
  simp

theorem tally_endAsking (h : Tally b none (.resume id :: todo) e) (hcall : e.call? id = some c)
    {told : Except Failure Json}
    (hstage : c.stage = .asking 0 seq ask watch (some told) (.answer after)) (why : Ending) :
    Tally b none todo (e.endAsking id 0 seq ask why (.answer after)) := by
  cases why with
  | cancelled => exact tally_leave_proceed h hcall hstage _
  | timedOut =>
    have hleft : Tally b (some id) todo (e.leave id 0 seq) :=
      Tally.leave [.resume id] h (by simp [Job.call?]) hcall (by simp [Call.seq?, hstage])
    exact tally_proceed (hleft.log _ _) hcall (by simp [Call.Waits, hstage]) _

theorem tally_wakeWindowed (h : Tally b none (.resume id :: todo) e) (hcall : e.call? id = some c)
    (hstage : c.stage = .asking 0 seq ask watch outcome (.answer after)) (why : Ending) :
    Tally b none todo (e.wakeWindowed id 0 seq ask outcome why (.answer after)) := by
  cases outcome with
  | some o => exact tally_leave_proceed h hcall hstage o
  | none => exact tally_giveUp h hcall hstage why

/-- The job that a call needs in line, as its watch and its outcome are. -/
def Watch.Needs (id seq : Nat) : Watch → Option (Except Failure Json) → Job → Prop
  | .unbounded, _, job => job = .resume id
  | .windowed .pending, none, job => job = .expire id seq
  | .windowed .pending, some _, job => job = .passOn id seq
  | .windowed _, _, job => job = .resume id
  | .ending _, _, job => job = .passOn id seq ∨ job = .resume id

/-- Any other job may be done. -/
theorem attended_of_cons {jobs : List Job} {timers : List (Timer Job)} {cancelled : Bool} {job : Job}
    (h : watch.Attended id seq (job :: jobs) timers outcome cancelled)
    (hneeds : ¬ Watch.Needs id seq watch outcome job) :
    watch.Attended id seq jobs timers outcome cancelled := by
  have hrest : ∀ {j : Job}, j ∈ job :: jobs → job ≠ j → j ∈ jobs := fun hj hne =>
    (List.mem_cons.mp hj).resolve_left (Ne.symm hne)
  cases watch with
  | unbounded => exact fun hdone => hrest (h hdone) hneeds
  | windowed signal =>
    cases signal with
    | pending =>
      cases outcome with
      | none => exact ⟨h.1, h.2.imp_left fun hj => hrest hj hneeds⟩
      | some o => exact ⟨h.1, hrest h.2 hneeds⟩
    | raised => exact hrest h hneeds
    | cancelled => exact hrest h hneeds
  | ending why =>
    exact h.imp (fun hj => hrest hj fun heq => hneeds (.inl heq))
      fun hj => hrest hj fun heq => hneeds (.inr heq)

/-- A job is done for a call that waits for its command and does not need it. -/
theorem tally_unneeded {job : Job} {next : Continuation} (h : Tally b none (job :: todo) e)
    (hcall : e.call? id = some c) (hown : job.call? = some id)
    (hstage : c.stage = .asking 0 seq ask watch outcome next)
    (hneeds : ¬ Watch.Needs id seq watch outcome job) : Tally b none todo e := by
  refine h.idle fun x hx hjob => ?_
  obtain ⟨i, d⟩ := x
  obtain rfl : id = i := Option.some.inj (hown.symm.trans hjob)
  cases h.apart.eq (mem_of_call? hcall) hx
  have hattended := h.attended _ hx (by simp)
  rw [Call.Attended, hstage] at hattended ⊢
  exact attended_of_cons hattended hneeds

/-- A job is done for a call that waits for no command, and it was not to run
on. -/
theorem tally_deaf {job : Job} (h : Tally b none (job :: todo) e) (hown : job.call? = some id)
    (hresume : job ≠ .resume id) (hseq : ∀ c, e.call? id = some c → c.seq? = none) :
    Tally b none todo e := by
  refine h.idle fun x hx hjob => ?_
  obtain ⟨i, d⟩ := x
  obtain rfl : id = i := Option.some.inj (hown.symm.trans hjob)
  have hattended := h.attended _ hx (by simp)
  have hnone := hseq d ((Table.get?_eq_some_iff h.apart.single).mpr hx)
  obtain ⟨role, stage, cancelled⟩ := d
  cases stage with
  | created work => exact (List.mem_cons.mp hattended).resolve_left (Ne.symm hresume)
  | asking => cases hnone
  | _ => trivial

/-- A call that waits for a command is woken. -/
theorem tally_resumeAsking (h : Tally b none (.resume id :: todo) e) (hcall : e.call? id = some c)
    (hstage : c.stage = .asking 0 seq ask watch outcome (.answer after)) :
    Tally b none todo
      (e.resumeAsking id c.cancelled 0 seq ask watch outcome (.answer after)) := by
  have hstaged := (h.regular _ (mem_of_call? hcall)).stage
  rw [hstage] at hstaged
  obtain ⟨-, -, -, hunbounded, hending⟩ := hstaged
  unfold resumeAsking
  cases watch with
  | unbounded =>
    cases outcome with
    | none =>
      have hcancelled : c.cancelled = false := hunbounded rfl rfl
      simp only [hcancelled]
      -- nothing has come for the call, so nothing is lost by the job
      refine h.idle fun x hx hjob => ?_
      obtain ⟨i, d⟩ := x
      cases hjob
      cases h.apart.eq (mem_of_call? hcall) hx
      rw [Call.Attended, hstage]
      simp [Watch.Attended, hcancelled]
    | some o =>
      simp only []
      split
      · exact tally_leave_proceed h hcall hstage _
      · exact tally_leave_proceed h hcall hstage _
  | windowed signal =>
    simp only []
    split
    · exact tally_wakeWindowed h hcall hstage .cancelled
    · cases signal with
      | pending =>
        refine tally_unneeded h hcall rfl hstage ?_
        cases outcome <;> simp [Watch.Needs]
      | raised => exact tally_wakeWindowed h hcall hstage .timedOut
      | cancelled => exact tally_wakeWindowed h hcall hstage .cancelled
  | ending why =>
    cases outcome with
    | none => exact absurd rfl (hending why rfl)
    | some o => exact tally_endAsking h hcall hstage _

/-- **A call that runs on leaves the list in tally.** -/
theorem tally_resume (h : Tally b none (.resume id :: todo) e) :
    Tally b none todo (e.resume id) := by
  have hown : ∀ job ∈ [Job.resume id], job.call? = some id := by simp [Job.call?]
  unfold resume
  cases hcall : e.call? id with
  | none =>
    refine h.idle fun x hx hjob => ?_
    cases hjob
    exact absurd hx (not_mem_of_call? hcall _)
  | some c =>
    have hstaged := (h.regular _ (mem_of_call? hcall)).stage
    -- a call that waits for something else has no entry, and no job is kept for it
    have hout : c.listing? = none → Tally b (some id) todo e := fun hentry =>
      Tally.free [.resume id] h hown hcall hentry
    have hidle : (∀ jobs timers, c.Attended id jobs timers) → Tally b none todo e := by
      refine fun hattended => h.idle fun x hx hjob => ?_
      obtain ⟨i, d⟩ := x
      cases hjob
      cases h.apart.eq (mem_of_call? hcall) hx
      exact hattended _ _
    simp only []
    split
    · rename_i work hstage
      split
      · exact (hout (listing?_of_created hstage)).finish hcall _
      · exact tally_begin (hout (listing?_of_created hstage)) hcall hstage
    · rename_i i seq ask watch outcome next hstage
      rw [hstage] at hstaged
      obtain ⟨rfl, -, ⟨after, rfl⟩, -⟩ := hstaged
      exact tally_resumeAsking h hcall hstage
    · rename_i i outcome hstage
      have hentry : c.listing? = none := by simp [Call.listing?, hstage]
      split
      · exact (hout hentry).finish hcall _
      · cases outcome with
        | none => exact hidle fun _ _ => by simp [Call.Attended, hstage]
        | some o => exact (hout hentry).finish hcall _
    · rename_i parts left outcome stopped hstage
      have hentry : c.listing? = none := by simp [Call.listing?, hstage]
      split
      · exact (hout hentry).finish hcall _
      · cases outcome with
        | none => exact hidle fun _ _ => by simp [Call.Attended, hstage]
        | some o => exact (hout hentry).finish hcall _
    · rename_i handler hstage
      rw [hstage] at hstaged
      exact absurd hstaged fun hfalse => hfalse

/-! ## The other jobs -/

/-- A call is woken, and a job put in line for it. -/
theorem tally_woken (done : List Job) (h : Tally b none (done ++ todo) e)
    (hown : ∀ job ∈ done, job.call? = some id) (hcall : e.call? id = some c)
    {next : Continuation} {signal : Signal}
    (hstage : c.stage = .asking 0 seq ask (.windowed .pending) outcome next)
    (hsignal : signal ≠ .pending) :
    Tally b none todo
      ((e.amend id (.asking 0 seq ask (.windowed signal) outcome next)).post (.resume id)) := by
  have hregular := h.regular _ (mem_of_call? hcall)
  have hstaged := hregular.stage
  rw [hstage] at hstaged
  rw [amend_of_call hcall]
  refine h.amend done [.resume id] hown hcall (.inl rfl) (by simp [Job.Local])
    (by simp [Call.listing?, hstage])
    ⟨hregular.role, hstaged.1, hstaged.2.1, hstaged.2.2.1, by simp, by simp⟩
    (fun seq' command hwant => ?_) ?_
  · -- what it waits for is as before
    refine h.listed _ (mem_of_call? hcall) (by simp) seq' command ?_
    rw [← hwant]
    cases outcome <;> simp [Call.want?, hstage]
  · cases signal with
    | pending => exact absurd rfl hsignal
    | raised => simp [Call.Attended, Watch.Attended]
    | cancelled => simp [Call.Attended, Watch.Attended]

theorem tally_passOn (h : Tally b none (.passOn id seq :: todo) e) :
    Tally b none todo (e.passOn id seq) := by
  have hown : ∀ job ∈ [Job.passOn id seq], job.call? = some id := by simp [Job.call?]
  unfold passOn
  split
  · rename_i role i s ask watch outcome next cancelled hcall
    obtain rfl : i = 0 := (h.regular _ (mem_of_call? hcall)).stage.1
    split
    · rename_i heq
      subst heq
      split
      · exact tally_woken [.passOn id s] h hown hcall rfl (by simp)
      · -- a call that gave its command up is put in line
        have hmem := mem_of_call? hcall
        have hposted := h.amend [.passOn id s] [.resume id] hown hcall (.inl rfl)
          (by simp [Job.Local]) rfl (h.regular _ hmem) (h.listed _ hmem (by simp))
          (.inr (by simp))
        rwa [Table.update_self h.apart.single hmem] at hposted
      · rename_i hpending hending
        refine tally_unneeded h hcall rfl rfl fun hneeds => ?_
        cases watch with
        | unbounded => cases hneeds
        | windowed signal =>
          cases signal with
          | pending => exact hpending rfl
          | raised => cases hneeds
          | cancelled => cases hneeds
        | ending why => exact hending why rfl
    · rename_i hne
      refine tally_unneeded h hcall rfl rfl fun hneeds => ?_
      cases watch with
      | unbounded => cases hneeds
      | windowed signal =>
        cases signal with
        | pending =>
          cases outcome with
          | none => cases hneeds
          | some o =>
            cases hneeds
            exact hne rfl
        | raised => cases hneeds
        | cancelled => cases hneeds
      | ending why =>
        rcases hneeds with hneeds | hneeds
        · cases hneeds
          exact hne rfl
        · cases hneeds
  · rename_i hnone
    refine tally_deaf h rfl (by simp) fun c hcall => ?_
    obtain ⟨role, stage, cancelled⟩ := c
    cases stage with
    | asking i s ask watch outcome next => exact absurd hcall (hnone _ _ _ _ _ _ _ _)
    | _ => rfl

theorem tally_expire (h : Tally b none (.expire id seq :: todo) e) :
    Tally b none todo (e.expire id seq) := by
  have hown : ∀ job ∈ [Job.expire id seq], job.call? = some id := by simp [Job.call?]
  unfold expire
  split
  · rename_i role i s ask outcome next cancelled hcall
    obtain rfl : i = 0 := (h.regular _ (mem_of_call? hcall)).stage.1
    split
    · rename_i heq
      subst heq
      exact tally_woken [.expire id s] h hown hcall rfl (by simp)
    · rename_i hne
      refine tally_unneeded h hcall rfl rfl fun hneeds => ?_
      cases outcome with
      | none =>
        cases hneeds
        exact hne rfl
      | some o => cases hneeds
  · rename_i hnone
    by_cases hwaits : ∃ c i s ask watch outcome next, e.call? id = some c ∧
        c.stage = .asking i s ask watch outcome next
    · obtain ⟨⟨role, stage, cancelled⟩, i, s, ask, watch, outcome, next, hcall, rfl⟩ := hwaits
      obtain rfl : i = 0 := (h.regular _ (mem_of_call? hcall)).stage.1
      refine tally_unneeded h hcall rfl rfl fun hneeds => ?_
      cases watch with
      | unbounded => cases hneeds
      | windowed signal =>
        cases signal with
        | pending => exact hnone _ _ _ _ _ _ _ hcall
        | raised => cases hneeds
        | cancelled => cases hneeds
      | ending why => rcases hneeds with hneeds | hneeds <;> cases hneeds
    · refine tally_deaf h rfl (by simp) fun c hcall => ?_
      obtain ⟨role, stage, cancelled⟩ := c
      cases stage with
      | asking i s ask watch outcome next => exact absurd ⟨_, _, _, _, _, _, _, hcall, rfl⟩ hwaits
      | _ => rfl

theorem tally_fire (h : Tally b none todo e) (uri : String) (timer : Nat) :
    Tally b none todo (e.fire 0 uri timer) := by
  have htaken := h.discreet (Relay.discreet_fire uri timer (e.relay 0))
  unfold fire
  rw [operate_eq]
  cases ((e.relay 0).fire uri timer).2 with
  | true => exact htaken.spawn rfl rfl
  | false => exact htaken

/-- A larger call goes on to wait for its parts, and may be put in line. -/
theorem tally_gather (left' : Nat) (outcome' : Option (Except Failure Unit)) (stopped' : Bool)
    (js : List Job) (h : Tally b none todo e) {role : Role} {parts : List Nat} {left : Nat}
    {outcome : Option (Except Failure Unit)} {stopped cancelled : Bool}
    (hcall : e.call? id = some ⟨role, .gathering parts left outcome stopped, cancelled⟩)
    (hjs : ∀ job ∈ js, job.Local) :
    Tally b none todo
      { e with
        calls := Table.update id
          (fun _ => ⟨role, .gathering parts left' outcome' stopped', cancelled⟩) e.calls
        agenda := { e.agenda with ready := e.agenda.ready ++ js } } :=
  Tally.amend [] js h (by simp) hcall (.inl rfl) hjs rfl
    ⟨(h.regular _ (mem_of_call? hcall)).role, trivial⟩ (by simp [Call.want?]) trivial

theorem tally_partEnded (h : Tally b none todo e) (whole : Nat) (outcome : Except Failure Unit) :
    Tally b none todo (e.partEnded whole outcome) := by
  unfold partEnded
  split
  · rename_i role parts left stopped cancelled hcall
    split
    · rw [amend_of_call hcall]
      exact tally_gather _ _ _ [.resume whole] h hcall (by simp [Job.Local])
    · split
      · rw [amend_of_call hcall]
        exact tally_gather _ _ _ [.resume whole] h hcall (by simp [Job.Local])
      · rw [amend_of_call hcall]
        simpa using tally_gather (left - 1) none stopped [] h hcall (by simp)
  · exact h

theorem tally_checkEnded (h : Tally b none todo e) (outcome : Except Failure Unit) :
    Tally b none todo (e.checkEnded 0 outcome) := by
  unfold checkEnded
  split
  · exact h
  · exact h
  · exact h.log _ _

/-- **So does any job.** -/
theorem tally_dispatch {job : Job} (h : Tally b none (job :: todo) e) :
    Tally b none todo (e.dispatch job) := by
  have hlocal := h.jobs job List.mem_cons_self
  cases job with
  | resume id => exact tally_resume h
  | passOn id seq => exact tally_passOn h
  | expire id seq => exact tally_expire h
  | fire i uri timer =>
    cases (show i = 0 from hlocal)
    exact tally_fire (h.idle fun _ _ hjob => by cases hjob) uri timer
  | partEnded whole outcome =>
    exact tally_partEnded (h.idle fun _ _ hjob => by cases hjob) whole outcome
  | checkEnded i outcome =>
    cases (show i = 0 from hlocal)
    exact tally_checkEnded (h.idle fun _ _ hjob => by cases hjob) outcome

/-! ## Cancelling -/

/-- A call is to be cancelled when it next runs. -/
theorem tally_mark (h : Tally b none todo e) (hcall : e.call? id = some c)
    (hwaits : c.Waits → ∃ seq ask signal outcome next,
      c.stage = .asking 0 seq ask (.windowed signal) outcome next ∧ signal ≠ .pending)
    (hpending : ∀ i seq ask outcome next,
      c.stage ≠ .asking i seq ask (.windowed .pending) outcome next) :
    Tally b none todo (e.markCancelled id) := by
  have hmem := mem_of_call? hcall
  have hregular := h.regular _ hmem
  have hattended := h.attended _ hmem (by simp)
  obtain ⟨role, stage, cancelled⟩ := c
  have hmarked : Call.Regular (e.relay 0).link.last ⟨role, stage, true⟩ ∧
      Call.Attended id (todo ++ e.agenda.ready) e.agenda.timers ⟨role, stage, true⟩ := by
    have hstaged := hregular.stage
    cases stage with
    | created work => exact ⟨⟨hregular.role, hstaged⟩, hattended⟩
    | asking i seq ask watch outcome next =>
      refine ⟨⟨hregular.role, hstaged.1, hstaged.2.1, hstaged.2.2.1, fun hwatch hnone => ?_,
        hstaged.2.2.2.2⟩, ?_⟩
      · subst hwatch hnone
        obtain ⟨_, _, _, _, _, heq, -⟩ := hwaits trivial
        cases heq
      · change watch.Attended id seq _ _ outcome cancelled at hattended
        change watch.Attended id seq _ _ outcome true
        cases watch with
        | unbounded =>
          cases outcome with
          | none =>
            obtain ⟨_, _, _, _, _, heq, -⟩ := hwaits trivial
            cases heq
          | some o => exact fun _ => hattended (.inl rfl)
        | windowed signal =>
          cases signal with
          | pending => exact absurd rfl (hpending _ _ _ _ _)
          | raised => exact hattended
          | cancelled => exact hattended
        | ending why => exact hattended
    | checking i outcome =>
      refine ⟨⟨hregular.role, hstaged.1, fun hnone => ?_⟩, trivial⟩
      subst hnone
      obtain ⟨_, _, _, _, _, heq, -⟩ := hwaits trivial
      cases heq
    | gathering parts left outcome stopped => exact ⟨⟨hregular.role, trivial⟩, trivial⟩
    | queued handler => exact absurd hstaged fun hfalse => hfalse
  have hamended : Tally b none todo
      { e with
        calls := Table.update id (fun _ => ⟨role, stage, true⟩) e.calls
        agenda := { e.agenda with ready := e.agenda.ready ++ [] } } :=
    Tally.amend [] [] h (by simp) hcall (.inl rfl) (by simp) rfl hmarked.1
      (h.listed _ hmem (by simp)) (by simpa using hmarked.2)
  unfold markCancelled
  rw [update_of_call? hcall]
  simpa using hamended

theorem tally_cancelSimple (h : Tally b none todo e) (id : Nat) :
    Tally b none todo (e.cancelSimple id) := by
  unfold cancelSimple
  cases hcall : e.call? id with
  | none => exact h
  | some c =>
    have hregular := h.regular _ (mem_of_call? hcall)
    have hstaged := hregular.stage
    have hcall' : ∀ f, (e.mapRelay 0 f).call? id = some c := fun _ => hcall
    simp only []
    split
    · rename_i i seq ask next hstage
      rw [hstage] at hstaged
      obtain rfl : i = 0 := hstaged.1
      rw [amend_of_call (hcall' _)]
      exact Tally.withdraw [] [.resume id] .unbounded h (by simp) hcall (by simp [Job.Local]) hstage
        c.cancelled fun _ => by simp
    · rename_i i seq ask outcome next hstage
      rw [hstage] at hstaged
      obtain rfl : i = 0 := hstaged.1
      exact tally_woken [] h (by simp) hcall hstage (by simp)
    · rename_i i hstage
      rw [hstage] at hstaged
      obtain rfl : i = 0 := hstaged.1
      rw [amend_of_call (hcall' _)]
      exact Tally.alter [] [.resume id] h (by simp) hcall (.inl rfl) (by simp [Job.Local])
        h.collected rfl rfl (fun p hp _ _ => hp) (by simp [Call.listing?, hstage])
        ⟨hregular.role, rfl, by simp⟩ (by simp [Call.want?]) trivial
    · rename_i handler hstage
      rw [hstage] at hstaged
      exact absurd hstaged fun hfalse => hfalse
    · rename_i hunbounded hwindowed hchecking hqueued
      refine tally_mark h hcall (fun hwaits => ?_) fun i seq ask outcome next heq =>
        hwindowed i seq ask outcome next heq
      -- what waits without a window was dealt with above
      obtain ⟨role, stage, cancelled⟩ := c
      cases stage with
      | asking i seq ask watch outcome next =>
        obtain rfl : i = 0 := hstaged.1
        cases outcome with
        | some o => exact absurd hwaits fun hfalse => hfalse
        | none =>
          cases watch with
          | unbounded => exact absurd rfl (hunbounded 0 seq ask next)
          | windowed signal =>
            refine ⟨seq, ask, signal, none, next, rfl, ?_⟩
            rintro rfl
            exact hwindowed 0 seq ask none next rfl
          | ending why => exact absurd rfl (hstaged.2.2.2.2 why rfl)
      | checking i outcome =>
        cases outcome with
        | some o => exact absurd hwaits fun hfalse => hfalse
        | none => exact absurd rfl (hchecking i)
      | _ => exact absurd hwaits fun hfalse => hfalse

theorem tally_cancelParts (parts : List Nat) (h : Tally b none todo e) (hcall : e.call? id = some c)
    (hfree : ¬ c.Waits) (hseq : c.seq? = none) :
    Tally b none todo (parts.foldl (fun e p => e.cancelSimple p) e) ∧
      ∃ cancelled, (parts.foldl (fun e p => e.cancelSimple p) e).call? id =
        some { c with cancelled } := by
  induction parts generalizing e c with
  | nil => exact ⟨h, c.cancelled, hcall⟩
  | cons p rest ih =>
    obtain ⟨cancelled, hcall'⟩ := call?_cancelSimple hcall hfree hseq p
    obtain ⟨hrest, cancelled', hcall''⟩ := ih (tally_cancelSimple h p) hcall' hfree hseq
    exact ⟨hrest, cancelled', hcall''⟩

/-- **Cancelling a call leaves the list in tally.** -/
theorem tally_cancel (h : Tally b none todo e) (id : Nat) : Tally b none todo (e.cancel id) := by
  unfold cancel
  split
  · rename_i role parts left stopped cancelled hcall
    have hfree : ¬ Call.Waits ⟨role, .gathering parts left none stopped, cancelled⟩ := by
      simp [Call.Waits]
    simp only []
    split
    · exact tally_mark h hcall (fun hwaits => absurd hwaits hfree) (by simp)
    · obtain ⟨hcancelled, marked, hcall'⟩ :=
        tally_cancelParts (parts.filter fun p => (e.call? p).isSome) h hcall hfree rfl
      rw [amend_of_call hcall']
      simpa using tally_gather left none true [] hcancelled hcall' (by simp)
  · exact tally_cancelSimple h id

end Engine

end LanguageRelay
