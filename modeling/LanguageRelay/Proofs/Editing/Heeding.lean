import LanguageRelay.Proofs.Engine.Ledger
/-!
# What calls heed

A relay with documents tells calls of two things: that the command they wait
for has an outcome, and that the diagnostics they wait for are there. What it
did is passed on effect by effect. Each call heeds what is for it
(`Call.heed`), timers are set and taken back (`Agenda.heed`), and all else is
recorded. `heeded_effects` says that of any effects, and `foldl_heed_cases`
what they leave of a call: the first outcome that is for it, if there is one.
-/

namespace LanguageRelay

/-- The call waits for something of a relay that has not come. -/
def Call.Waits (c : Call) : Prop :=
  match c.stage with
  | .asking _ _ _ _ none _ => True
  | .checking _ none => True
  | _ => False

/-- A call that waits for diagnostics gets its outcome. -/
def Call.release (o : Except Failure Unit) (c : Call) : Call :=
  match c.stage with
  | .checking i none => { c with stage := .checking i (some o) }
  | _ => c

/-- A call heeds what the first relay did, if it is for it. -/
def Call.heed (id : Nat) (c : Call) : Effect → Call
  | .answered seq o => c.take seq o
  | .released waiter o => if waiter = id then c.release o else c
  | _ => c

/-- The job that is put in line for a call when its outcome is there. -/
def Call.alarm? (id : Nat) (c : Call) : Option Job :=
  match c.stage with
  | .checking _ _ => some (.resume id)
  | _ => c.wakeup? id

/-- The effect is recorded: no call is told of it, and no timer concerned. -/
def Effect.noted : Effect → Bool
  | .answered .. | .released .. | .armed .. | .disarmed .. => false
  | _ => true

/-- The job is the timer of a document. -/
def Job.isTimer (uri : String) (timer : Nat) : Job → Bool
  | .fire relay u t => relay == 0 && u == uri && t == timer
  | _ => false

/-- Timers are set and taken back as the first relay says. -/
def Agenda.heed (delay : Int) (a : Agenda Job) : Effect → Agenda Job
  | .armed uri timer => a.setTimer delay (.fire 0 uri timer)
  | .disarmed uri timer => a.dropTimers (Job.isTimer uri timer)
  | _ => a

namespace Engine

/-- How long the first relay holds checks back. -/
def delay (e : Engine) : Int := (e.relay 0).setup.delay.nanos

/-- **What a relay did has been heeded**: by the calls, by the agenda, and in
the record. Whoever was told has a job in line. -/
structure Heeded (fx : List Effect) (e e' : Engine) : Prop where
  same : e' = { e with agenda := e'.agenda, calls := e'.calls, record := e'.record }
  calls : e'.calls = e.calls.map fun x => (x.1, fx.foldl (Call.heed x.1) x.2)
  record : e'.record = e.record ++ (fx.filter Effect.noted).map fun effect => (0, effect)
  agenda : ∃ js, e'.agenda = { fx.foldl (Agenda.heed e.delay) e.agenda with
      ready := e.agenda.ready ++ js } ∧ (∀ job ∈ js, job.call?.isSome) ∧
    ∀ x ∈ e.calls, x.2.Waits → ¬ (fx.foldl (Call.heed x.1) x.2).Waits →
      ∀ job, (fx.foldl (Call.heed x.1) x.2).alarm? x.1 = some job → job ∈ js

variable {e e' e'' : Engine} {fx fy : List Effect} {id : Nat} {c : Call}

/-! ## What effects leave of a call -/

@[simp] theorem seq?_release (o : Except Failure Unit) (c : Call) :
    (c.release o).seq? = c.seq? := by
  unfold Call.release
  split
  · rename_i hstage
    simp [Call.seq?, hstage]
  · rfl

@[simp] theorem seq?_heed (id : Nat) (c : Call) (effect : Effect) :
    (c.heed id effect).seq? = c.seq? := by
  cases effect with
  | answered seq o => exact seq?_learn c (.answered seq o)
  | released waiter o =>
    rw [Call.heed]
    split
    · exact seq?_release o c
    · rfl
  | _ => rfl

@[simp] theorem seq?_foldl_heed (fx : List Effect) (id : Nat) (c : Call) :
    (fx.foldl (Call.heed id) c).seq? = c.seq? := by
  induction fx generalizing c with
  | nil => rfl
  | cons effect rest ih => rw [List.foldl_cons, ih, seq?_heed]

/-- What a call does with one effect. -/
theorem heed_cases (id : Nat) (c : Call) (effect : Effect) :
    c.heed id effect = c ∧
        (∀ seq ask watch next, c.stage = .asking 0 seq ask watch none next →
          ∀ o, effect ≠ .answered seq o) ∧
        (∀ i, c.stage = .checking i none → ∀ o, effect ≠ .released id o) ∨
      (∃ seq ask watch next o, c.stage = .asking 0 seq ask watch none next ∧
        effect = .answered seq o ∧
        c.heed id effect = { c with stage := .asking 0 seq ask watch (some o) next }) ∨
      ∃ i o, c.stage = .checking i none ∧ effect = .released id o ∧
        c.heed id effect = { c with stage := .checking i (some o) } := by
  cases effect with
  | answered seq o =>
    rcases take_cases seq o c with ⟨ask, watch, next, hstage, htake⟩ | htake
    · exact .inr (.inl ⟨seq, ask, watch, next, o, hstage, rfl, htake⟩)
    · refine .inl ⟨htake, fun s ask watch next hstage o' heq => ?_, by simp⟩
      cases heq
      -- a call that waits for this number would have taken the outcome
      have hchanged : c.take seq o = { c with stage := .asking 0 seq ask watch (some o) next } := by
        simp [Call.take, hstage]
      rw [htake] at hchanged
      rw [hchanged] at hstage
      simp at hstage
  | released waiter o =>
    by_cases hwaiter : waiter = id
    · subst hwaiter
      have hheed : c.heed waiter (.released waiter o) = c.release o := if_pos rfl
      rw [hheed]
      unfold Call.release
      split
      · rename_i i hstage
        exact .inr (.inr ⟨i, o, hstage, rfl, rfl⟩)
      · rename_i hstage
        exact .inl ⟨rfl, by simp, fun i hi => absurd hi (hstage i)⟩
    · refine .inl ⟨if_neg hwaiter, by simp, fun i _ o' heq => ?_⟩
      cases heq
      exact hwaiter rfl
  | _ => exact .inl ⟨rfl, by simp, by simp⟩

/-- A call that does not wait heeds nothing. -/
theorem heed_of_not_waits (h : ¬ c.Waits) (effect : Effect) : c.heed id effect = c := by
  rcases heed_cases id c effect with hsame | ⟨seq, ask, watch, next, o, hstage, -⟩ |
    ⟨i, o, hstage, -⟩
  · exact hsame.1
  · exact absurd (by simp [Call.Waits, hstage]) h
  · exact absurd (by simp [Call.Waits, hstage]) h

theorem foldl_heed_of_not_waits (h : ¬ c.Waits) (fx : List Effect) :
    fx.foldl (Call.heed id) c = c := by
  induction fx with
  | nil => rfl
  | cons effect rest ih => rw [List.foldl_cons, heed_of_not_waits h, ih]

/-- **What effects leave of a call**: the first outcome that is for it. -/
theorem foldl_heed_cases (fx : List Effect) (id : Nat) (c : Call) :
    fx.foldl (Call.heed id) c = c ∧
        (∀ seq ask watch next, c.stage = .asking 0 seq ask watch none next →
          ∀ o, .answered seq o ∉ fx) ∧
        (∀ i, c.stage = .checking i none → ∀ o, .released id o ∉ fx) ∨
      (∃ seq ask watch next o, c.stage = .asking 0 seq ask watch none next ∧
        .answered seq o ∈ fx ∧ fx.foldl (Call.heed id) c =
          { c with stage := .asking 0 seq ask watch (some o) next }) ∨
      ∃ i o, c.stage = .checking i none ∧ .released id o ∈ fx ∧
        fx.foldl (Call.heed id) c = { c with stage := .checking i (some o) } := by
  induction fx with
  | nil => exact .inl ⟨rfl, by simp, by simp⟩
  | cons effect rest ih =>
    rw [List.foldl_cons]
    rcases heed_cases id c effect with ⟨hsame, hasking, hchecking⟩ |
      ⟨seq, ask, watch, next, o, hstage, rfl, hheed⟩ | ⟨i, o, hstage, rfl, hheed⟩
    · rw [hsame]
      rcases ih with ⟨hrest, hasking', hchecking'⟩ | ⟨seq, ask, watch, next, o, hstage, ho, hrest⟩ |
        ⟨i, o, hstage, ho, hrest⟩
      · refine .inl ⟨hrest, fun seq ask watch next hstage o ho => ?_, fun i hstage o ho => ?_⟩
        · exact (List.mem_cons.mp ho).elim
            (fun heq => hasking seq ask watch next hstage o heq.symm)
            (hasking' seq ask watch next hstage o)
        · exact (List.mem_cons.mp ho).elim (fun heq => hchecking i hstage o heq.symm)
            (hchecking' i hstage o)
      · exact .inr (.inl ⟨seq, ask, watch, next, o, hstage, List.mem_cons_of_mem _ ho, hrest⟩)
      · exact .inr (.inr ⟨i, o, hstage, List.mem_cons_of_mem _ ho, hrest⟩)
    · refine .inr (.inl ⟨seq, ask, watch, next, o, hstage, List.mem_cons_self, ?_⟩)
      rw [hheed, foldl_heed_of_not_waits (by simp [Call.Waits])]
    · refine .inr (.inr ⟨i, o, hstage, List.mem_cons_self, ?_⟩)
      rw [hheed, foldl_heed_of_not_waits (by simp [Call.Waits])]

/-! ## Passing on -/

/-- Timers do not concern the line. -/
theorem foldl_heed_ready (fx : List Effect) (delay : Int) (a : Agenda Job) (ready : List Job) :
    fx.foldl (Agenda.heed delay) { a with ready } =
      { fx.foldl (Agenda.heed delay) a with ready } := by
  induction fx generalizing a with
  | nil => rfl
  | cons effect rest ih =>
    have hone : Agenda.heed delay { a with ready } effect =
        { Agenda.heed delay a effect with ready } := by cases effect <;> rfl
    rw [List.foldl_cons, List.foldl_cons, hone, ih]

theorem Heeded.refl (e : Engine) : Heeded [] e e :=
  ⟨rfl, by simp, by simp, [], by simp, by simp, fun _ _ hwaits hnot => absurd hwaits hnot⟩

theorem Heeded.delay (h : Heeded fx e e') : e'.delay = e.delay := by
  rw [h.same]
  rfl

theorem Heeded.trans (h : Heeded fx e e') (h' : Heeded fy e' e'') : Heeded (fx ++ fy) e e'' where
  same := by rw [h'.same, h.same]
  calls := by rw [h'.calls, h.calls, List.map_map]; simp [Function.comp_def]
  record := by rw [h'.record, h.record]; simp
  agenda := by
    obtain ⟨js, hjs, hlocal, hwoken⟩ := h.agenda
    obtain ⟨ks, hks, hlocal', hwoken'⟩ := h'.agenda
    refine ⟨js ++ ks, ?_, fun job hjob => ?_, fun x hx hwaits hnot job hjob => ?_⟩
    · rw [hks, hjs, h.delay, foldl_heed_ready]
      simp
    · exact (List.mem_append.mp hjob).elim (hlocal job) (hlocal' job)
    · rw [List.foldl_append] at hnot hjob
      by_cases hfirst : (fx.foldl (Call.heed x.1) x.2).Waits
      · have hmem : (x.1, fx.foldl (Call.heed x.1) x.2) ∈ e'.calls := by
          rw [h.calls]
          exact List.mem_map_of_mem hx
        exact List.mem_append_right _ (hwoken' _ hmem hfirst hnot job hjob)
      · rw [foldl_heed_of_not_waits hfirst] at hjob
        exact List.mem_append_left _ (hwoken x hx hwaits hfirst job hjob)

/-- Where no call heeds the effect and none is woken. -/
theorem heeded_unheard {effect : Effect} (hcalls : ∀ x ∈ e.calls, x.2.heed x.1 effect = x.2)
    (hdeliver : deliver 0 e effect = { e with
      agenda := Agenda.heed e.delay e.agenda effect
      record := e.record ++ ([effect].filter Effect.noted).map fun effect => (0, effect) })
    (hready : (Agenda.heed e.delay e.agenda effect).ready = e.agenda.ready) :
    Heeded [effect] e (deliver 0 e effect) := by
  rw [hdeliver]
  refine ⟨rfl, ?_, rfl, [], ?_, by simp, fun x hx hwaits hnot => ?_⟩
  · refine ((List.map_congr_left fun x hx => ?_).trans (List.map_id _)).symm
    simp [hcalls x hx]
  · simp [← hready]
  · rw [List.foldl_cons, hcalls x hx] at hnot
    exact absurd hwaits hnot

/-- An outcome of a command changes the call that waits for it. -/
theorem heeded_answered (happart : Apart e.calls) (seq : Nat) (o : Except Failure Json) :
    Heeded [.answered seq o] e (deliver 0 e (.answered seq o)) := by
  have hdelivered := delivered_answered happart seq o
  have hsame : deliver 0 e (.answered seq o) = { e with
      agenda := (deliver 0 e (.answered seq o)).agenda
      calls := (deliver 0 e (.answered seq o)).calls } := by
    change e.answered 0 seq o = { e with
      agenda := (e.answered 0 seq o).agenda
      calls := (e.answered 0 seq o).calls }
    unfold answered
    split
    · rfl
    · split
      · dsimp only
        split <;> rfl
      · rfl
  obtain ⟨js, hready, hwakes, hwoken⟩ := hdelivered.ready
  refine ⟨?_, hdelivered.calls, ?_, js, ?_, fun job hjob => ?_, fun x hx hwaits hnot job hjob => ?_⟩
  · conv_lhs => rw [hsame]
    rw [hsame]
  · rw [hsame]
    simp [Effect.noted]
  · generalize deliver 0 e (.answered seq o) = e' at hdelivered hready
    obtain ⟨setup, ⟨now, ready, timers⟩⟩ := e'
    simp only at hready
    subst hready
    have hnow := hdelivered.now
    have htimers := hdelivered.timers
    simp only at hnow htimers
    subst hnow
    subst htimers
    rfl
  · obtain ⟨⟨id, c⟩, -, -, hwakeup⟩ := hwakes job hjob
    obtain ⟨role, stage, cancelled⟩ := c
    cases stage with
    | asking i seq ask watch outcome next =>
      cases watch <;> simp [Call.wakeup?] at hwakeup <;> subst hwakeup <;> rfl
    | _ => simp [Call.wakeup?] at hwakeup
  · rw [List.foldl_cons, List.foldl_nil] at hnot hjob
    rcases heed_cases x.1 x.2 (.answered seq o) with hheed | ⟨s, ask, watch, next, o', hstage, -, hheed⟩ |
      ⟨i, o', -, heq, -⟩
    · rw [hheed.1] at hnot
      exact absurd hwaits hnot
    · have htake : x.2.learn (.answered seq o) = x.2.heed x.1 (.answered seq o) := rfl
      refine hwoken x hx ?_ ?_ job ?_
      · rintro ⟨i, s', ask', watch', o', next', hstage'⟩
        rw [hstage] at hstage'
        cases hstage'
      · rw [List.foldl_cons, List.foldl_nil, htake, hheed]
        exact ⟨0, s, ask, watch, o', next, rfl⟩
      · rw [hheed] at hjob
        rw [List.foldl_cons, List.foldl_nil, htake, hheed]
        exact hjob
    · cases heq

/-- An outcome of a check changes the call that waits for it. -/
theorem heeded_released (happart : Apart e.calls) (waiter : Nat) (o : Except Failure Unit) :
    Heeded [.released waiter o] e (deliver 0 e (.released waiter o)) := by
  have hother : ∀ x ∈ e.calls, x.1 ≠ waiter → x.2.heed x.1 (.released waiter o) = x.2 :=
    fun x _ hne => if_neg (Ne.symm hne)
  have hself : ∀ {c c'}, e.call? waiter = some c → (waiter, c') ∈ e.calls → c' = c :=
    fun hc hc' => happart.eq hc' (Table.mem_of_get? hc)
  by_cases hwaits : ∃ c i, e.call? waiter = some c ∧ c.stage = .checking i none
  · obtain ⟨⟨role, stage, cancelled⟩, i, hcall, rfl⟩ := hwaits
    have hreleased : deliver 0 e (.released waiter o) =
        (e.amend waiter (.checking i (some o))).post (.resume waiter) := by
      simp [deliver, released, hcall]
    rw [hreleased]
    refine ⟨rfl, ?_, by simp [Effect.noted, amend, post], [.resume waiter], rfl, by simp [Job.call?],
      fun x hx hwaits hnot job hjob => ?_⟩
    · refine happart.update_eq_map (Table.mem_of_get? hcall) rfl ?_ fun x hx hid => hother x hx hid
      simp [Call.heed, Call.release]
    · by_cases hid : x.1 = waiter
      · obtain ⟨id, c⟩ := x
        cases hid
        cases hself hcall hx
        simpa [Call.heed, Call.release, Call.alarm?, eq_comm] using hjob
      · rw [List.foldl_cons, hother x hx hid] at hnot
        exact absurd hwaits hnot
  · refine heeded_unheard (fun x hx => ?_) ?_ rfl
    · by_cases hid : x.1 = waiter
      · obtain ⟨id, c⟩ := x
        cases hid
        have hcall : e.call? id = some c := (Table.get?_eq_some_iff happart.single).mpr hx
        rcases heed_cases id c (.released id o) with hsame | ⟨s, ask, watch, next, o', -, heq, -⟩ |
          ⟨i, o', hstage, -⟩
        · exact hsame.1
        · cases heq
        · exact absurd ⟨c, i, hcall, hstage⟩ hwaits
      · exact hother x hx hid
    · have hunchanged : deliver 0 e (.released waiter o) = e := by
        change e.released waiter o = e
        unfold released
        split
        · rename_i role i cancelled hcall
          exact absurd ⟨_, i, hcall, rfl⟩ hwaits
        · rfl
      rw [hunchanged]
      simp [Agenda.heed, Effect.noted]

/-- **What a relay did is heeded.** -/
theorem heeded_effects (happart : Apart e.calls) (fx : List Effect) :
    Heeded fx e (fx.foldl (deliver 0) e) := by
  induction fx generalizing e with
  | nil => exact .refl e
  | cons effect rest ih =>
    have hfirst : Heeded [effect] e (deliver 0 e effect) := by
      cases effect with
      | answered seq o => exact heeded_answered happart seq o
      | released waiter o => exact heeded_released happart waiter o
      | armed uri timer =>
        exact heeded_unheard (fun _ _ => rfl) (by simp [deliver, Agenda.heed, Effect.noted, delay])
          rfl
      | disarmed uri timer =>
        refine heeded_unheard (fun _ _ => rfl) ?_ rfl
        simp only [deliver, Agenda.heed, Effect.noted, List.filter_cons_of_neg, List.filter_nil,
          Bool.false_eq_true, not_false_eq_true, List.map_nil, List.append_nil]
        congr 2
      | sent => exact heeded_unheard (fun _ _ => rfl) rfl rfl
      | logged => exact heeded_unheard (fun _ _ => rfl) rfl rfl
      | published => exact heeded_unheard (fun _ _ => rfl) rfl rfl
      | noticed => exact heeded_unheard (fun _ _ => rfl) rfl rfl
      | closed => exact heeded_unheard (fun _ _ => rfl) rfl rfl
    refine hfirst.trans (ih ?_)
    rw [hfirst.calls]
    exact happart.map fun x => by simp

end Engine

end LanguageRelay
