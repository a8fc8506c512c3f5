import LanguageRelay.Proofs.Engine.Moments
import LanguageRelay.Proofs.Table
/-!
# How calls learn outcomes

A relay gives outcomes to commands, and the engine passes each on to the one
call that waits for it. Where every number is that of one call, passing on
what a relay did changes each call by itself (`delivered_effects`): a call
learns the first outcome given to its number, and nothing else.
-/

namespace LanguageRelay

/-- The number of the command a call waits for. -/
def Call.seq? (c : Call) : Option Nat :=
  match c.stage with
  | .asking _ seq _ _ _ _ => some seq
  | _ => none

/-- The outcome of its command is there. -/
def Call.Answered (c : Call) : Prop :=
  ∃ i seq ask watch o next, c.stage = .asking i seq ask watch (some o) next

/-- A call takes in the outcome of a command of the first relay, if it waits for
that one. -/
def Call.take (seq : Nat) (o : Except Failure Json) (c : Call) : Call :=
  match c.stage with
  | .asking 0 s ask watch none next =>
    if s = seq then { c with stage := .asking 0 s ask watch (some o) next } else c
  | _ => c

/-- A call learns what the first relay did. -/
def Call.learn (c : Call) : Effect → Call
  | .answered seq o => c.take seq o
  | _ => c

/-- The job that wakes a call when its outcome is there: it runs on at once, or
after the outcome has been passed on. -/
def Call.wakeup? (id : Nat) (c : Call) : Option Job :=
  match c.stage with
  | .asking _ _ _ .unbounded _ _ => some (.resume id)
  | .asking _ seq _ _ _ _ => some (.passOn id seq)
  | _ => none

/-- The effect is one of the connection: a command was written, a line logged,
an outcome given, an event passed on, or the closing made known. -/
def Effect.OfLink : Effect → Prop
  | .sent _ | .logged .. | .answered .. | .noticed _ | .closed _ => True
  | _ => False

namespace Engine

/-- **Every number is that of one call**, and every call has one number. -/
structure Apart (calls : List (Nat × Call)) : Prop where
  single : (Table.keys calls).Nodup
  distinct : ∀ x ∈ calls, ∀ y ∈ calls, ∀ seq, x.2.seq? = some seq → y.2.seq? = some seq → x.1 = y.1

/-- The job wakes a call that has its outcome. -/
def Wakes (calls : List (Nat × Call)) (job : Job) : Prop :=
  ∃ x ∈ calls, x.2.Answered ∧ x.2.wakeup? x.1 = some job

/-- **What a relay did has been passed on**: calls have learned it, and those
that got an outcome by it are woken, and no others. -/
structure Delivered (fx : List Effect) (e e' : Engine) : Prop where
  setup : e'.setup = e.setup
  relays : e'.relays = e.relays
  lastCall : e'.lastCall = e.lastCall
  ended : e'.ended = e.ended
  now : e'.agenda.now = e.agenda.now
  timers : e'.agenda.timers = e.agenda.timers
  calls : e'.calls = e.calls.map fun x => (x.1, fx.foldl Call.learn x.2)
  ready : ∃ js, e'.agenda.ready = e.agenda.ready ++ js ∧ (∀ job ∈ js, Wakes e'.calls job) ∧
    ∀ x ∈ e.calls, ¬ x.2.Answered → (fx.foldl Call.learn x.2).Answered →
      ∀ job, (fx.foldl Call.learn x.2).wakeup? x.1 = some job → job ∈ js

variable {e e' e'' : Engine} {calls : List (Nat × Call)} {fx fy : List Effect}

/-! ## What learning keeps -/

/-- A call that takes in an outcome waited for it; all others stay as they
are. -/
theorem take_cases (seq : Nat) (o : Except Failure Json) (c : Call) :
    (∃ ask watch next, c.stage = .asking 0 seq ask watch none next ∧
      c.take seq o = { c with stage := .asking 0 seq ask watch (some o) next }) ∨
    c.take seq o = c := by
  unfold Call.take
  split
  · rename_i s ask watch next hstage
    by_cases hs : s = seq
    · subst hs
      exact .inl ⟨ask, watch, next, hstage, if_pos rfl⟩
    · exact .inr (if_neg hs)
  · exact .inr rfl

@[simp] theorem seq?_learn (c : Call) (effect : Effect) : (c.learn effect).seq? = c.seq? := by
  cases effect with
  | answered seq o =>
    change (c.take seq o).seq? = c.seq?
    rcases take_cases seq o c with ⟨ask, watch, next, hstage, htake⟩ | htake
    · rw [htake]
      simp [Call.seq?, hstage]
    · rw [htake]
  | _ => rfl

@[simp] theorem seq?_foldl_learn (fx : List Effect) (c : Call) :
    (fx.foldl Call.learn c).seq? = c.seq? := by
  induction fx generalizing c with
  | nil => rfl
  | cons effect rest ih => rw [List.foldl_cons, ih, seq?_learn]

/-- A call that has its outcome learns nothing more. -/
theorem learn_of_answered {c : Call} (h : c.Answered) (effect : Effect) : c.learn effect = c := by
  obtain ⟨i, seq, ask, watch, o, next, hstage⟩ := h
  cases effect with
  | answered s o' =>
    rcases take_cases s o' c with ⟨ask', watch', next', hopen, -⟩ | htake
    · rw [hstage] at hopen
      simp at hopen
    · exact htake
  | _ => rfl

theorem foldl_learn_of_answered {c : Call} (h : c.Answered) (fx : List Effect) :
    fx.foldl Call.learn c = c := by
  induction fx with
  | nil => rfl
  | cons effect rest ih => rw [List.foldl_cons, learn_of_answered h, ih]

/-- A call learns one outcome for the command it waits for, or nothing. -/
theorem foldl_learn_cases (fx : List Effect) (c : Call) :
    fx.foldl Call.learn c = c ∨ ∃ seq ask watch next o,
      c.stage = .asking 0 seq ask watch none next ∧
        fx.foldl Call.learn c = { c with stage := .asking 0 seq ask watch (some o) next } := by
  induction fx with
  | nil => exact .inl rfl
  | cons effect rest ih =>
    rw [List.foldl_cons]
    cases effect with
    | answered seq o =>
      change rest.foldl Call.learn (c.take seq o) = c ∨ _
      rcases take_cases seq o c with ⟨ask, watch, next, hstage, htake⟩ | htake
      · have hanswered : (c.take seq o).Answered := by
          rw [htake]
          exact ⟨_, _, _, _, _, _, rfl⟩
        refine .inr ⟨seq, ask, watch, next, o, hstage, ?_⟩
        change rest.foldl Call.learn (c.take seq o) = _
        rw [foldl_learn_of_answered hanswered, htake]
      · have hlearn : c.learn (.answered seq o) = c := htake
        rw [htake, hlearn]
        exact ih
    | _ => exact ih

/-- A call that waits for no command learns nothing. -/
theorem foldl_learn_of_seq?_eq_none {c : Call} (h : c.seq? = none) (fx : List Effect) :
    fx.foldl Call.learn c = c := by
  rcases foldl_learn_cases fx c with hsame | ⟨seq, ask, watch, next, o, hstage, -⟩
  · exact hsame
  · simp [Call.seq?, hstage] at h

/-- What is done to calls one by one, without their numbers, keeps these
apart. -/
theorem Apart.map (h : Apart calls) {f : Nat × Call → Call} (hseq : ∀ x, (f x).seq? = x.2.seq?) :
    Apart (calls.map fun x => (x.1, f x)) where
  single := by
    have hkeys : Table.keys (calls.map fun x => (x.1, f x)) = Table.keys calls := by
      simp [Table.keys, Function.comp_def]
    rw [hkeys]
    exact h.single
  distinct x hx y hy seq hxs hys := by
    obtain ⟨x', hx', rfl⟩ := List.mem_map.mp hx
    obtain ⟨y', hy', rfl⟩ := List.mem_map.mp hy
    exact h.distinct x' hx' y' hy' seq (by rwa [← hseq]) (by rwa [← hseq])

/-! ## Passing on -/

theorem Delivered.refl (e : Engine) : Delivered [] e e :=
  ⟨rfl, rfl, rfl, rfl, rfl, rfl, by simp, [], by simp, by simp, fun _ _ hopen hanswered =>
    absurd hanswered hopen⟩

theorem Delivered.trans (h : Delivered fx e e') (h' : Delivered fy e' e'') :
    Delivered (fx ++ fy) e e'' where
  setup := h'.setup.trans h.setup
  relays := h'.relays.trans h.relays
  lastCall := h'.lastCall.trans h.lastCall
  ended := h'.ended.trans h.ended
  now := h'.now.trans h.now
  timers := h'.timers.trans h.timers
  calls := by rw [h'.calls, h.calls, List.map_map]; simp [Function.comp_def]
  ready := by
    obtain ⟨js, hjs, hwakes, hwoken⟩ := h.ready
    obtain ⟨ks, hks, hwakes', hwoken'⟩ := h'.ready
    refine ⟨js ++ ks, by rw [hks, hjs, List.append_assoc], fun job hjob => ?_,
      fun x hx hopen hanswered => ?_⟩
    · rcases List.mem_append.mp hjob with hjob | hjob
      · obtain ⟨x, hx, hanswered, hkind⟩ := hwakes job hjob
        refine ⟨x, ?_, hanswered, hkind⟩
        rw [h'.calls]
        exact List.mem_map.mpr ⟨x, hx, by rw [foldl_learn_of_answered hanswered]⟩
      · exact hwakes' job hjob
    · rw [List.foldl_append] at hanswered ⊢
      by_cases hfirst : (fx.foldl Call.learn x.2).Answered
      · rw [foldl_learn_of_answered hfirst]
        exact fun job hjob => List.mem_append_left _ (hwoken x hx hopen hfirst job hjob)
      · have hmem : (x.1, fx.foldl Call.learn x.2) ∈ e'.calls := by
          rw [h.calls]
          exact List.mem_map_of_mem hx
        exact fun job hjob => List.mem_append_right _ (hwoken' _ hmem hfirst hanswered job hjob)

/-- What is only noted wakes nobody. -/
theorem delivered_noted {effect : Effect} (h : ∀ c : Call, c.learn effect = c)
    (hdeliver : deliver 0 e effect = { e with record := e.record ++ [(0, effect)] }) :
    Delivered [effect] e (deliver 0 e effect) := by
  rw [hdeliver]
  refine ⟨rfl, rfl, rfl, rfl, rfl, rfl, by simp [h], [], by simp, by simp, ?_⟩
  intro x _ hopen hanswered
  rw [List.foldl_cons, h] at hanswered
  exact absurd hanswered hopen

/-- One number has one entry among the calls. -/
theorem Apart.eq (h : Apart calls) {id : Nat} {c c' : Call} (hc : (id, c) ∈ calls)
    (hc' : (id, c') ∈ calls) : c = c' :=
  Option.some.inj (((Table.get?_eq_some_iff h.single).mpr hc).symm.trans
    ((Table.get?_eq_some_iff h.single).mpr hc'))

/-- Changing one call goes over all. -/
theorem Apart.update_eq_map (h : Apart calls) {id : Nat} {c c' : Call} {f : Call → Call}
    {g : Nat × Call → Call} (hc : (id, c) ∈ calls) (hself : f c = c') (hg : g (id, c) = c')
    (hother : ∀ x ∈ calls, x.1 ≠ id → g x = x.2) :
    Table.update id f calls = calls.map fun x => (x.1, g x) := by
  rw [Table.update_eq_map f h.single]
  refine List.map_congr_left fun x hx => ?_
  obtain ⟨id', d⟩ := x
  by_cases hid : id' = id
  · subst hid
    cases h.eq hc hx
    simp [hself, hg]
  · simp [hid, hother _ hx hid]

/-- Whoever watches for an outcome awaits that of the command. -/
theorem asking_of_watcher? {id seq : Nat} {c : Call} (hfound : e.watcher? 0 seq = some (id, c)) :
    (id, c) ∈ e.calls ∧ ∃ ask watch next, c.stage = .asking 0 seq ask watch none next := by
  refine ⟨List.mem_of_find?_eq_some hfound, ?_⟩
  have hwaits := List.find?_some hfound
  revert hwaits
  cases hstage : c.stage with
  | asking i s ask watch outcome next => cases outcome <;> simp
  | _ => simp

/-- An outcome that nobody watches for changes no call. -/
theorem take_of_unwatched {seq : Nat} (hfound : e.watcher? 0 seq = none)
    (o : Except Failure Json) {x : Nat × Call} (hx : x ∈ e.calls) : x.2.take seq o = x.2 := by
  rcases take_cases seq o x.2 with ⟨ask, watch, next, hstage, -⟩ | htake
  · exact absurd (by simp [hstage]) (List.find?_eq_none.mp hfound x hx)
  · exact htake

/-- Nor does one that another call watches for: its number is no other call's. -/
theorem take_of_ne (happart : Apart e.calls) {id seq : Nat} {c : Call} (hmem : (id, c) ∈ e.calls)
    (hseq : c.seq? = some seq) (o : Except Failure Json) {x : Nat × Call} (hx : x ∈ e.calls)
    (hid : x.1 ≠ id) : x.2.take seq o = x.2 := by
  rcases take_cases seq o x.2 with ⟨ask, watch, next, hstage, -⟩ | htake
  · exact absurd (happart.distinct x hx (id, c) hmem seq (by simp [Call.seq?, hstage]) hseq) hid
  · exact htake

/-- An outcome changes the call it is for, if any. -/
theorem delivered_answered (happart : Apart e.calls) (seq : Nat) (o : Except Failure Json) :
    Delivered [.answered seq o] e (deliver 0 e (.answered seq o)) := by
  change Delivered [.answered seq o] e (e.answered 0 seq o)
  unfold answered
  cases hfound : e.watcher? 0 seq with
  | none =>
    refine ⟨rfl, rfl, rfl, rfl, rfl, rfl, ?_, [], by simp, by simp,
      fun x hx hopen hanswered => ?_⟩
    · refine ((List.map_congr_left fun x hx => ?_).trans (List.map_id _)).symm
      simp [Call.learn, take_of_unwatched hfound o hx]
    · exact absurd (take_of_unwatched hfound o hx ▸ hanswered) hopen
  | some found =>
    obtain ⟨id, c⟩ := found
    obtain ⟨hmem, ask, watch, next, hstage⟩ := asking_of_watcher? hfound
    have htake : c.take seq o = { c with stage := .asking 0 seq ask watch (some o) next } := by
      simp [Call.take, hstage]
    have hother : ∀ x ∈ e.calls, x.1 ≠ id → x.2.take seq o = x.2 := fun x hx =>
      take_of_ne happart hmem (by simp [Call.seq?, hstage]) o hx
    have hcalls : Table.update id
        (fun c => { c with stage := .asking 0 seq ask watch (some o) next }) e.calls =
          e.calls.map fun x => (x.1, x.2.take seq o) :=
      happart.update_eq_map hmem rfl htake hother
    have hnow : (id, { c with stage := .asking 0 seq ask watch (some o) next }) ∈
        e.calls.map fun x => (x.1, x.2.take seq o) :=
      List.mem_map.mpr ⟨(id, c), hmem, by simp [htake]⟩
    have hanswered : Call.Answered { c with stage := .asking 0 seq ask watch (some o) next } :=
      ⟨0, seq, ask, watch, o, next, rfl⟩
    -- only the one call learns anything, so that its job wakes all that did
    have hwoken : ∀ x ∈ e.calls, ¬ x.2.Answered → (x.2.take seq o).Answered → x = (id, c) := by
      intro x hx hopen hdone
      have hid : x.1 = id := by_contra fun hid => hopen (hother x hx hid ▸ hdone)
      obtain ⟨id', d⟩ := x
      cases hid
      rw [happart.eq hmem hx]
    have hone : ∀ job, Call.wakeup? id { c with stage := .asking 0 seq ask watch (some o) next } =
        some job → Delivered [.answered seq o] e
          ((e.amend id (.asking 0 seq ask watch (some o) next)).post job) := by
      intro job hjob
      refine ⟨rfl, rfl, rfl, rfl, rfl, rfl, hcalls, [job], rfl, fun job' hjob' => ?_,
        fun x hx hopen hdone job' hjob' => ?_⟩
      · rw [List.mem_singleton.mp hjob']
        exact ⟨_, hcalls ▸ hnow, hanswered, hjob⟩
      · obtain rfl := hwoken x hx hopen hdone
        change (c.take seq o).wakeup? id = some job' at hjob'
        rw [htake, hjob] at hjob'
        exact List.mem_singleton.mpr (Option.some.inj hjob').symm
    simp only [hstage]
    cases watch with
    | unbounded => exact hone _ rfl
    | windowed signal => exact hone _ rfl
    | ending why => exact hone _ rfl

/-- **What a relay does on its connection is passed on.** -/
theorem delivered_effects (happart : Apart e.calls) (hlink : ∀ effect ∈ fx, effect.OfLink) :
    Delivered fx e (fx.foldl (deliver 0) e) := by
  induction fx generalizing e with
  | nil => exact .refl e
  | cons effect rest ih =>
    have hfirst : Delivered [effect] e (deliver 0 e effect) := by
      have heffect := hlink effect List.mem_cons_self
      cases effect with
      | answered seq o => exact delivered_answered happart seq o
      | sent => exact delivered_noted (fun _ => rfl) rfl
      | logged => exact delivered_noted (fun _ => rfl) rfl
      | noticed => exact delivered_noted (fun _ => rfl) rfl
      | closed => exact delivered_noted (fun _ => rfl) rfl
      | published => exact absurd heffect id
      | released => exact absurd heffect id
      | armed => exact absurd heffect id
      | disarmed => exact absurd heffect id
    refine hfirst.trans (ih ?_ fun x hx => hlink x (List.mem_cons_of_mem _ hx))
    rw [hfirst.calls]
    exact happart.map fun x => by simp

end Engine

end LanguageRelay
