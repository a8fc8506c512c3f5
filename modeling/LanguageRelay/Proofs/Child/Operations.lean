import LanguageRelay.Proofs.Child.Settling
/-!
# The operations on a child

Each operation on a child that settled is a row of acts (`mimics_undergo`) and
leaves it settled (`settled_undergo`), so whatever is done to it is a row of acts
(`exists_acts`), and what holds of every child kept one thing at a time holds of
it: `life_cycle`.

A call that stops the child is made to wait before anything comes of it, and
is taken out again where it returns at once. Where calls lose patience, the
first to do so kills the child, and the others see that it exited.
-/

namespace LanguageRelay

namespace Child

open Service Frame

variable {k : Keeping} {before : List Effect}

/-! ## What the keeper is called for -/

/-- What is seen when a call that stops the child returns. -/
theorem shown_release (hl : k.listeners = 1) (call : String) :
    (k.release call).shown before =
      (({ k.shown before with reader := .ended, draining := false }).close none).finish call
        (.ok ()) := by
  cases hc : k.child.closed <;>
    simp [Keeping.release, Keeping.shut, Keeping.note, Keeping.shown, close, finish, hc, hl,
      Keeping.closing, Deed.effects, log, emit]

/-- When all is over it only returns. -/
theorem shown_release_of_over (hl : k.listeners = 1) (ho : Over (k.shown before)) (call : String) :
    (k.release call).shown before = (k.shown before).finish call (.ok ()) := by
  have hsame : { k.shown before with reader := .ended, draining := false } = k.shown before := by
    rw [← ho.ended, ← ho.undrained]
  rw [shown_release hl, hsame, close, if_pos ho.closed]

/-- A call that waits for a child that exited sees that, and returns. -/
theorem shown_notice (ha : Alone k) {i : Nat} {s : Stop} (hs : k.child.stops[i]? = some s)
    (hexit : k.child.exitCode.isSome = true) (ho : Over (k.shown before)) :
    (k.perform (.notice i)).shown before
        = finish s.call (.ok ()) { k.shown before with stops := k.child.stops.eraseIdx i }
      ∧ Alone (k.perform (.notice i)) := by
  let k' : Keeping := { k with child := { k.child with stops := k.child.stops.eraseIdx i } }
  obtain ⟨code, hcode⟩ := Option.isSome_iff_exists.mp hexit
  have hnotice : k.perform (.notice i) = k'.release s.call := by
    simp only [Keeping.perform, hs, hcode, k']
  have ho' : Over (k'.shown before) := ⟨ho.ended, ho.closed, ho.undrained⟩
  rw [hnotice, shown_release_of_over (k := k') ha.listeners ho']
  exact ⟨rfl, ha.hearers, ha.listeners, ha.killers⟩

/-- The calls that wait for a child that exited return one by one. -/
theorem mimics_finishStops (before : List Effect) (ha : Alone k)
    (hover : k.child.exitCode.isSome = true → Over (k.shown before)) :
    MimicsAt before k finishStops := by
  by_cases hexit : k.child.exitCode.isSome = true
  · have ho := hover hexit
    have hfinish : finishStops (k.shown before) = k.child.stops.foldl
        (fun c s => c.finish s.call (.ok ())) { k.shown before with stops := [] } := if_pos hexit
    rw [MimicsAt, hfinish]
    clear hfinish hover
    generalize hstops : k.child.stops = stops
    induction stops generalizing k with
    | nil =>
      refine ⟨[], ?_, ha⟩
      simp only [Keeping.run, List.foldl_nil, Keeping.shown]
      rw [← hstops]
    | cons s stops ih =>
      obtain ⟨hshown, ha'⟩ := shown_notice (i := 0) (s := s) ha (by rw [hstops]; rfl) hexit ho
      rw [hstops, List.eraseIdx_cons_zero] at hshown
      have hexit' : (k.perform (.notice 0)).child.exitCode.isSome = true :=
        (congrArg (Option.isSome ∘ Child.exitCode) hshown).trans hexit
      have ho' : Over ((k.perform (.notice 0)).shown before) := by
        rw [hshown]
        exact ⟨ho.ended, ho.closed, ho.undrained⟩
      obtain ⟨acts, hacts, ha''⟩ := ih ha' hexit' ho' (congrArg Child.stops hshown)
      refine ⟨.notice 0 :: acts, hacts.trans ?_, ha''⟩
      rw [hshown]
      rfl
  · exact ⟨[], (if_neg (show ¬ (k.shown before).exitCode.isSome = true from hexit)).symm, ha⟩

/-- A call that lost patience kills the child and returns. -/
theorem exists_kill (before : List Effect) (ha : Alone k) {i : Nat} {s : Stop}
    (hs : k.child.stops[i]? = some s) (hdue : s.due ≤ k.child.now) :
    ∃ acts, (k.run acts).shown before
        = kill s.call { k.shown before with stops := k.child.stops.eraseIdx i }
      ∧ Alone (k.run acts) := by
  let k₁ : Keeping :=
    { k with
      child := { k.child with kills := k.child.kills + 1, stops := k.child.stops.eraseIdx i }
      killers := [s.call] }
  have htire : k.perform (.tire i) = k₁ := by
    simp only [Keeping.perform, hs, if_pos hdue, ha.killers, List.nil_append, k₁]
  obtain ⟨acts, hacts⟩ := exists_terminate (-9) k₁
  let k₂ : Keeping := { k₁ with child := k₁.child.terminate (-9) }
  have hexit : ∃ code, k₂.child.exitCode = some code := by
    cases hcode : k.child.exitCode with
    | some code => exact ⟨code, by simp [k₂, k₁, terminate, hcode]⟩
    | none => exact ⟨-9, by simp [k₂, k₁, terminate, hcode]⟩
  obtain ⟨code, hcode⟩ := hexit
  let k₃ : Keeping := { k₂ with killers := [] }
  have hbury : k₂.perform (.bury 0) = k₃.release s.call := by
    have hkillers : k₂.killers = [s.call] := rfl
    simp only [Keeping.perform, hkillers, List.getElem?_cons_zero, hcode, List.eraseIdx_cons_zero, k₃]
  have hrun : k.run (.tire i :: (acts ++ [.bury 0])) = k₃.release s.call := by
    change (k.perform (.tire i)).run (acts ++ [.bury 0]) = _
    rw [htire, Keeping.run_append, hacts]
    exact hbury
  have hseen : k₃.shown before
      = ({ k.shown before with
          stops := k.child.stops.eraseIdx i, kills := k.child.kills + 1 } : Child).terminate (-9) := by
    cases hcode : k.child.exitCode <;> simp [Keeping.shown, k₃, k₂, k₁, terminate, hcode]
  refine ⟨.tire i :: (acts ++ [.bury 0]), ?_⟩
  rw [hrun, shown_release (k := k₃) ha.listeners, hseen]
  exact ⟨rfl, ha.hearers, ha.listeners, rfl⟩

/-- Sending is one act. -/
theorem mimics_send (message : Json) : Mimics fun c => (c.send message).1 := by
  intro before k ha
  refine ⟨[.send message], ?_⟩
  cases hclosed : k.child.closed <;> cases hstarted : k.child.started <;>
    cases hclosing : k.child.inputClosing <;> cases hwritable : message.isWritable <;>
    simp [Keeping.run, Keeping.perform, Keeping.note, Keeping.shown, send, line?, emit, Deed.effects,
      hclosed, hstarted, hclosing, hwritable, alone_iff, ha.hearers, ha.listeners, ha.killers]

/-- The input is closed, and the child may exit. -/
theorem mimics_closeInput : Mimics closeInput := by
  intro before k ha
  cases hclosing : k.child.inputClosing with
  | true => exact ⟨[], by simp [closeInput, Keeping.run, Keeping.shown, hclosing], ha⟩
  | false =>
    cases hexit : k.child.setup.exitOnClose with
    | none =>
      have hmark := mimics_markInputClosing before k ha
      simpa [MimicsAt, closeInput, Keeping.shown, hclosing, hexit, markInputClosing] using hmark
    | some code =>
      have hall := (mimics_markInputClosing.comp (mimics_terminate code)).comp mimics_attend before k ha
      simpa [MimicsAt, closeInput, Keeping.shown, hclosing, hexit, markInputClosing] using hall

/-- What closing the input leaves to be done: nothing. -/
theorem done_closeInput {c : Child} (h : Settled c) (hclosed : c.reader = .ended ↔ c.closed = true) :
    Done c.closeInput ∧ c.closeInput.stops = c.stops ∧ c.closeInput.now = c.now
      ∧ c.closeInput.inputClosing = true := by
  unfold closeInput
  split
  next hclosing => exact ⟨h.toDone, rfl, rfl, hclosing⟩
  next =>
    simp only
    split
    next code _ =>
      obtain ⟨hstops, hnow, hreader, hclosed', hcut⟩ :=
        terminate_fields code { c with inputClosing := true }
      have hsame := sameCourse_attend (terminate code { c with inputClosing := true })
      have hclosing : (terminate code { c with inputClosing := true }).inputClosing = true := by
        unfold terminate
        split <;> rfl
      refine ⟨done_attend ?_ fun _ => hcut h.cut, hsame.stops.trans hstops, hsame.now.trans hnow,
        hsame.inputClosing.trans hclosing⟩
      rw [hreader, hclosed']
      exact hclosed
    next => exact ⟨⟨fun he => ⟨(h.finished he).ended, (h.finished he).closed, (h.finished he).undrained⟩, h.cut⟩,
      rfl, rfl, rfl⟩

/-- The child while one more call waits for it to exit. -/
def await (call : String) (patience : Duration) (c : Child) : Child :=
  { c with stops := c.stops ++ [⟨call, c.now + patience.nanos⟩] }

theorem stop_eq {c : Child} (hstarted : c.started = true) (call : String) (patience : Duration) :
    stop call patience c =
      if patience.nanos ≤ 0 then (c.closeInput.kill call).finishStops
      else if c.closeInput.exitCode.isSome then (c.closeInput.finish call (.ok ())).finishStops
      else c.closeInput.await call patience :=
  if_pos hstarted

/-- What a call that stops the child leaves to be done: nothing. -/
theorem settled_stop {c : Child} (hs : Settled c) (hstarted : c.started = true)
    (hclosed : c.reader = .ended ↔ c.closed = true) (call : String) (patience : Duration) :
    Settled (stop call patience c) := by
  obtain ⟨hdone, hstops, hnow, -⟩ := done_closeInput hs hclosed
  have hpatient : ∀ s ∈ c.closeInput.stops, c.closeInput.now ≤ s.due := by
    rw [hstops, hnow]
    exact hs.patient
  rw [stop_eq hstarted]
  split
  · obtain ⟨hkept, hthen, -⟩ := kill_fields call c.closeInput
    refine settled_finishStops (done_kill call hdone) ?_
    rw [hkept, hthen]
    exact hpatient
  · split
    next hexit =>
      have hover := hdone.finished hexit
      exact settled_finishStops ⟨fun _ => ⟨hover.ended, hover.closed, hover.undrained⟩, hdone.cut⟩
        hpatient
    next hpos hexit =>
      refine ⟨⟨fun h => absurd h hexit, fun h => absurd h hexit⟩, fun h => absurd h hexit, ?_⟩
      intro s hs
      rcases List.mem_append.mp hs with hs | hs
      · exact hpatient s hs
      · rw [List.mem_singleton.mp hs]
        change c.closeInput.now ≤ c.closeInput.now + patience.nanos
        omega

/-- The input is closed, and the call waits. -/
theorem exists_waiting (ha : Alone k) (hclosing : (closeInput (k.shown before)).inputClosing = true)
    (call : String) (patience : Duration) :
    ∃ acts, (k.run acts).shown before = (closeInput (k.shown before)).await call patience ∧
      Alone (k.run acts) := by
  refine (mimics_closeInput before k ha).comp (g := await call patience) fun acts hshown ha' => ?_
  refine ⟨[.stop call patience], ?_, ha'.hearers, ha'.listeners, ha'.killers⟩
  -- the input was being closed already
  have hinput : (k.run acts).child.inputClosing = true :=
    (congrArg Child.inputClosing hshown).trans hclosing
  generalize k.run acts = k' at hinput
  simp only [Keeping.run, List.foldl_cons, List.foldl_nil, Keeping.perform, Keeping.shown, await]
  rw [← hinput]

/-- **A call that stops the child is a row of acts.** -/
theorem mimics_stop (ha : Alone k) (hl : Lawful k) (hs : Settled (k.shown before)) (call : String)
    (patience : Duration) : MimicsAt before k (stop call patience) := by
  obtain ⟨hdone, -, -, hclosing⟩ := done_closeInput hs hl.ended
  obtain ⟨acts, hwaits, ha₁⟩ := exists_waiting ha hclosing call patience
  have hstop := stop_eq (show (k.shown before).started = true from hl.started) call patience
  rw [MimicsAt, hstop]
  generalize (k.shown before).closeInput = c at hdone hwaits
  -- it is taken out again where it returns at once
  have hstops : (k.run acts).child.stops = c.stops ++ [⟨call, c.now + patience.nanos⟩] :=
    congrArg Child.stops hwaits
  have hget : (k.run acts).child.stops[c.stops.length]? = some ⟨call, c.now + patience.nanos⟩ := by
    simp [hstops]
  have hback : { (k.run acts).shown before with
      stops := (k.run acts).child.stops.eraseIdx c.stops.length } = c := by
    rw [hwaits, hstops]
    simp [await, List.eraseIdx_append_of_length_le]
  split
  next hpos =>
    have hnow : ((k.run acts).shown before).now = c.now := by
      rw [hwaits]
      rfl
    obtain ⟨more, hkill, ha₂⟩ := exists_kill before ha₁ hget (by
      change c.now + patience.nanos ≤ ((k.run acts).shown before).now
      omega)
    rw [hback] at hkill
    obtain ⟨rest, hrest, ha₃⟩ := mimics_finishStops before ha₂ fun _ => by
      rw [hkill]
      exact over_kill _ _
    refine ⟨acts ++ (more ++ rest), ?_⟩
    rw [Keeping.run_append, Keeping.run_append, hrest, hkill]
    exact ⟨rfl, ha₃⟩
  next =>
    split
    next hexit =>
      have hover := hdone.finished hexit
      have hexit' : (k.run acts).child.exitCode.isSome = true :=
        (congrArg (Option.isSome ∘ Child.exitCode) hwaits).trans hexit
      have hover' : Over ((k.run acts).shown before) := by
        rw [hwaits]
        exact ⟨hover.ended, hover.closed, hover.undrained⟩
      obtain ⟨hreturns, ha₂⟩ := shown_notice ha₁ hget hexit' hover'
      rw [hback] at hreturns
      obtain ⟨rest, hrest, ha₃⟩ := mimics_finishStops before ha₂ fun _ => by
        rw [hreturns]
        exact ⟨hover.ended, hover.closed, hover.undrained⟩
      refine ⟨acts ++ .notice c.stops.length :: rest, ?_⟩
      rw [Keeping.run_append, ← hreturns]
      exact ⟨hrest, ha₃⟩
    next => exact ⟨acts, hwaits, ha₁⟩

/-! ## Time -/

/-- The time that comes next is one a call waits for, and it is within the
limit; if there is none, no call waits for so little. -/
theorem nextDue?_spec (limit : Int) (stops : List Stop) :
    match nextDue? limit stops with
    | some time => ∃ s ∈ stops, s.due = time
    | none => ∀ s ∈ stops, limit < s.due := by
  suffices hgen : ∀ (stops : List Stop) (best : Option Int),
      match stops.foldl (fun best (s : Stop) =>
        if s.due ≤ limit ∧ best.all (s.due < ·) then some s.due else best) best with
      | some time => best = some time ∨ ∃ s ∈ stops, s.due = time
      | none => best = none ∧ ∀ s ∈ stops, limit < s.due by
    have := hgen stops none
    rw [nextDue?]
    split <;> rename_i heq <;> rw [heq] at this <;> simpa using this
  intro stops
  induction stops with
  | nil => intro best; cases best <;> simp
  | cons s stops ih =>
    intro best
    rw [List.foldl_cons]
    have := ih (if s.due ≤ limit ∧ best.all (s.due < ·) then some s.due else best)
    split at this
    next time =>
      rcases this with hbest | ⟨s', hs', hdue⟩
      · split at hbest
        · exact .inr ⟨s, List.mem_cons_self, Option.some.inj hbest⟩
        · exact .inl hbest
      · exact .inr ⟨s', List.mem_cons_of_mem _ hs', hdue⟩
    next =>
      obtain ⟨hbest, hall⟩ := this
      split at hbest
      · cases hbest
      next hn =>
        subst hbest
        refine ⟨rfl, fun s' hs' => ?_⟩
        rcases List.mem_cons.mp hs' with rfl | hs'
        · simp only [Option.all_none, and_true] at hn
          omega
        · exact hall s' hs'

/-- The calls whose time has come kill the child one by one. The list is gone
through from the front; `kept` are the calls passed over. -/
theorem exists_kills (before : List Effect) (todo kept : List Stop) (ha : Alone k)
    (hstops : k.child.stops = kept ++ todo) :
    ∃ acts, (k.run acts).shown before
        = (todo.filter fun s => s.due ≤ k.child.now).foldl (fun c s => c.kill s.call)
          { k.shown before with stops := kept ++ todo.filter fun s => !(s.due ≤ k.child.now) }
      ∧ Alone (k.run acts) := by
  induction todo generalizing k kept with
  | nil =>
    refine ⟨[], ?_, ha⟩
    simp only [List.filter_nil, List.foldl_nil, ← hstops]
    rfl
  | cons s todo ih =>
    by_cases hdue : s.due ≤ k.child.now
    · have hget : k.child.stops[kept.length]? = some s := by simp [hstops]
      have herase : k.child.stops.eraseIdx kept.length = kept ++ todo := by
        simp [hstops, List.eraseIdx_append_of_length_le]
      obtain ⟨first, hfirst, ha₁⟩ := exists_kill before ha hget hdue
      rw [herase] at hfirst
      obtain ⟨hkept, hnow, -⟩ := kill_fields s.call { k.shown before with stops := kept ++ todo }
      have hstops₁ : (k.run first).child.stops = kept ++ todo := by
        have := congrArg Child.stops hfirst
        exact this.trans hkept
      have hnow₁ : (k.run first).child.now = k.child.now := by
        have := congrArg Child.now hfirst
        exact this.trans hnow
      obtain ⟨rest, hrest, ha₂⟩ := ih kept ha₁ hstops₁
      have hlate : (s :: todo).filter (fun s => s.due ≤ k.child.now)
          = s :: todo.filter fun s => s.due ≤ k.child.now := by simp [hdue]
      have hwaiting : (s :: todo).filter (fun s => !(s.due ≤ k.child.now))
          = todo.filter fun s => !(s.due ≤ k.child.now) := by simp [hdue]
      refine ⟨first ++ rest, ?_⟩
      rw [Keeping.run_append, hrest, hfirst, hnow₁, hlate, hwaiting, List.foldl_cons, kill_withStops]
      exact ⟨rfl, ha₂⟩
    · obtain ⟨acts, hacts, ha₁⟩ := ih (kept ++ [s]) ha (by simp [hstops])
      have hlate : (s :: todo).filter (fun s => s.due ≤ k.child.now)
          = todo.filter fun s => s.due ≤ k.child.now := by simp [hdue]
      have hwaiting : (s :: todo).filter (fun s => !(s.due ≤ k.child.now))
          = s :: todo.filter fun s => !(s.due ≤ k.child.now) := by simp [hdue]
      refine ⟨acts, ?_, ha₁⟩
      rw [hacts, hlate, hwaiting, List.append_assoc]
      rfl

/-- After calls have killed the child nothing is left to be done. -/
theorem done_kills (late : List Stop) {c : Child} (h : Done c) :
    Done (late.foldl (fun c s => c.kill s.call) c)
      ∧ (late.foldl (fun c s => c.kill s.call) c).stops = c.stops
      ∧ (late.foldl (fun c s => c.kill s.call) c).now = c.now := by
  induction late generalizing c with
  | nil => exact ⟨h, rfl, rfl⟩
  | cons s late ih =>
    obtain ⟨hdone, hstops, hnow⟩ := ih (done_kill s.call h)
    obtain ⟨hstops', hnow', -⟩ := kill_fields s.call c
    exact ⟨hdone, hstops.trans hstops', hnow.trans hnow'⟩

/-- And the child has exited, if there are any such calls. -/
theorem exited_kills {late : List Stop} {c : Child} (h : late ≠ [] ∨ c.exitCode.isSome = true) :
    (late.foldl (fun c s => c.kill s.call) c).exitCode.isSome = true := by
  have hkill : ∀ (call : String) (c : Child), (c.kill call).exitCode.isSome = true := by
    intro call c
    have hclose := (sameCourse_close none
      { ({ c with kills := c.kills + 1 } : Child).terminate (-9) with
        reader := .ended, draining := false }).exitCode
    refine (congrArg Option.isSome hclose).trans ?_
    cases hcode : c.exitCode <;> simp [terminate]
  induction late generalizing c with
  | nil => exact h.resolve_left (by simp)
  | cons s late ih => exact ih (.inr (hkill s.call c))

/-- Where calls lose patience none waits on, and nothing is left to be done. -/
theorem settled_expire {c : Child} {time : Int} (hs : Settled c) (hdue : ∃ s ∈ c.stops, s.due = time) :
    Settled (expire time c) ∧ (expire time c).stops = [] := by
  obtain ⟨first, hfirst, hdue⟩ := hdue
  let late := c.stops.filter fun s => s.due ≤ time
  let waiting := c.stops.filter fun s => !(s.due ≤ time)
  have hlate : late ≠ [] := List.ne_nil_of_mem (List.mem_filter.mpr ⟨hfirst, by simp [hdue]⟩)
  have hdone : Done { c with now := time, stops := waiting } :=
    ⟨fun h => ⟨(hs.finished h).ended, (hs.finished h).closed, (hs.finished h).undrained⟩, hs.cut⟩
  obtain ⟨hkilled, hstops, hnow⟩ := done_kills late hdone
  refine ⟨settled_finishStops hkilled ?_, stops_finishStops (exited_kills (.inl hlate))⟩
  rw [hstops, hnow]
  intro s hmem
  have hwaits := (List.mem_filter.mp hmem).2
  simp only [Bool.not_eq_true', decide_eq_false_iff_not] at hwaits
  exact Int.le_of_lt (Int.not_le.mp hwaits)

/-- **Calls lose patience in a row of acts**, when their time has come. -/
theorem mimics_expire (ha : Alone k) (hs : Settled (k.shown before)) {time : Int}
    (hlater : k.child.now ≤ time) : MimicsAt before k (expire time) := by
  let late := k.child.stops.filter fun s => s.due ≤ time
  let c : Child := { k.shown before with
    now := time, stops := k.child.stops.filter fun s => !(s.due ≤ time) }
  have hexpire : expire time (k.shown before) = (late.foldl (fun c s => c.kill s.call) c).finishStops :=
    rfl
  have ha₁ : Alone (k.run [.pass time]) := ⟨ha.hearers, ha.listeners, ha.killers⟩
  have hnow : (k.run [.pass time]).child.now = time := Int.max_eq_right hlater
  obtain ⟨kills, hkills, ha₂⟩ := exists_kills before k.child.stops [] ha₁ rfl
  have hk₁ : { (k.run [.pass time]).shown before with
      stops := k.child.stops.filter fun s => !(s.due ≤ time) } = c := by
    simp only [Keeping.shown, hnow, c]
    rfl
  rw [hnow, List.nil_append, hk₁] at hkills
  have hdone : Done c :=
    ⟨fun h => ⟨(hs.finished h).ended, (hs.finished h).closed, (hs.finished h).undrained⟩, hs.cut⟩
  obtain ⟨rest, hrest, ha₃⟩ := mimics_finishStops before ha₂ fun hexit => by
    rw [hkills]
    exact (done_kills late hdone).1.finished
      ((congrArg (Option.isSome ∘ Child.exitCode) hkills).symm.trans hexit)
  refine ⟨.pass time :: (kills ++ rest), ?_⟩
  change (((k.run [.pass time]).run (kills ++ rest)).shown before) = _ ∧
    Alone ((k.run [.pass time]).run (kills ++ rest))
  rw [Keeping.run_append, hrest, hkills, hexpire]
  exact ⟨rfl, ha₃⟩

/-- Time passes and no call loses patience. -/
def wait (limit : Int) (c : Child) : Child := { c with now := max c.now limit }

theorem mimics_wait (limit : Int) : Mimics (wait limit) := fun _ _ ha =>
  ⟨[.pass limit], rfl, ha.hearers, ha.listeners, ha.killers⟩

theorem settled_wait {c : Child} {limit : Int} (hs : Settled c) (hlimit : ∀ s ∈ c.stops, limit ≤ s.due) :
    Settled (wait limit c) :=
  hs.keep rfl rfl rfl rfl rfl rfl rfl fun s hmem => Int.max_le.mpr ⟨hs.patient s hmem, hlimit s hmem⟩

theorem advance_eq (span : Duration) (c : Child) :
    advance span c = wait (c.now + span.nanos)
      (((nextDue? (c.now + span.nanos) c.stops).map (expire · c)).getD c) := by
  simp only [advance, wait]
  cases nextDue? (c.now + span.nanos) c.stops <;> rfl

/-- The passing of time leaves nothing to be done. -/
theorem settled_advance {c : Child} (hs : Settled c) (span : Duration) :
    Settled (advance span c) := by
  have hspec := nextDue?_spec (c.now + span.nanos) c.stops
  rw [advance_eq]
  cases hnext : nextDue? (c.now + span.nanos) c.stops with
  | none =>
    rw [hnext] at hspec
    exact settled_wait hs fun s hmem => Int.le_of_lt (hspec s hmem)
  | some time =>
    rw [hnext] at hspec
    obtain ⟨hsettled, hnone⟩ := settled_expire hs hspec
    refine settled_wait hsettled fun s hmem => ?_
    change s ∈ (expire time c).stops at hmem
    rw [hnone] at hmem
    cases hmem

/-- **The passing of time is a row of acts.** -/
theorem mimics_advance (ha : Alone k) (hs : Settled (k.shown before)) (span : Duration) :
    MimicsAt before k (advance span) := by
  let limit := k.child.now + span.nanos
  have hadvance : advance span (k.shown before) = wait limit
      (((nextDue? limit k.child.stops).map (expire · (k.shown before))).getD (k.shown before)) :=
    advance_eq span _
  have hspec := nextDue?_spec limit k.child.stops
  rw [MimicsAt, hadvance]
  cases hnext : nextDue? limit k.child.stops with
  | none => exact mimics_wait limit before k ha
  | some time =>
    rw [hnext] at hspec
    obtain ⟨first, hfirst, hdue⟩ := hspec
    exact (mimics_expire ha hs (hdue ▸ hs.patient first hfirst)).comp
      fun _ _ ha' => mimics_wait limit before _ ha'

/-! ## All operations -/

/-- What may be done with a child that was started. -/
inductive Doing where
  | start (call : String)
  | send (message : Json)
  | writeOutput (bytes : List UInt8)
  | writeErrors (bytes : List UInt8)
  | endOutput
  | markInputClosing
  | exit (code : Int)
  | stop (call : String) (patience : Duration)
  | advance (span : Duration)

/-- The child after it was done. What cannot be done is not. -/
def undergo (c : Child) : Doing → Child
  | .start call => c.start call
  | .send message => (c.send message).1
  | .writeOutput bytes => (c.writeOutput bytes).getD c
  | .writeErrors bytes => (c.writeErrors bytes).getD c
  | .endOutput => c.endOutput
  | .markInputClosing => c.markInputClosing
  | .exit code => c.exit code
  | .stop call patience => c.stop call patience
  | .advance span => c.advance span

/-- A child that was made to exit is done with when it was attended to. -/
theorem done_terminate {c : Child} (hs : Settled c) (hclosed : c.reader = .ended ↔ c.closed = true)
    (code : Int) : Done (c.terminate code).attend := by
  obtain ⟨-, -, hreader, hclosed', hcut⟩ := terminate_fields code c
  refine done_attend ?_ fun _ => hcut hs.cut
  rw [hreader, hclosed']
  exact hclosed

/-- **Whatever is done with a child leaves nothing to be done.** -/
theorem settled_undergo {c : Child} (hs : Settled c) (hstarted : c.started = true)
    (hclosed : c.reader = .ended ↔ c.closed = true) (d : Doing) : Settled (undergo c d) := by
  -- a child that still writes has not exited, and is attended to
  have hquiet : ∀ c' : Child, c'.exitCode = c.exitCode → ¬ c.exitCode.isSome = true →
      c'.stops = c.stops → c'.now = c.now → (c'.reader = .ended ↔ c'.closed = true) →
      Settled c'.attend := by
    intro c' hexit hnone hstops hnow hc
    rw [← hexit] at hnone
    exact settled_attend hc (fun h => absurd h hnone) (fun h => absurd h hnone)
      (by rw [hstops, hnow]; exact hs.patient)
  cases d with
  | start call =>
    simp only [undergo, Child.start, hstarted, if_true]
    exact hs.keep rfl rfl rfl rfl rfl rfl rfl hs.patient
  | send message =>
    simp only [undergo, send]
    split
    · exact hs
    · split
      · exact hs
      · split
        · exact hs.keep rfl rfl rfl rfl rfl rfl rfl hs.patient
        · exact hs
  | writeOutput bytes =>
    simp only [undergo, writeOutput]
    split
    · exact hs
    next hopen =>
      exact hquiet { c with output := c.output ++ bytes } rfl (fun h => hopen (hs.cut h).1) rfl rfl
        hclosed
  | writeErrors bytes =>
    simp only [undergo, writeErrors]
    split
    · exact hs
    next hopen =>
      exact hquiet { c with errors := c.errors ++ bytes } rfl (fun h => hopen (hs.cut h).2) rfl rfl
        hclosed
  | endOutput =>
    exact settled_attend (c := { c with outputEnded := true }) hclosed
      (fun h => ⟨rfl, (hs.cut h).2⟩) hs.waitless hs.patient
  | markInputClosing => exact hs.keep rfl rfl rfl rfl rfl rfl rfl hs.patient
  | exit code =>
    obtain ⟨hstops, hnow, -⟩ := terminate_fields code c
    have hsame := sameCourse_attend (c.terminate code)
    refine settled_finishStops (done_terminate hs hclosed code) ?_
    rw [hsame.stops, hsame.now, hstops, hnow]
    exact hs.patient
  | stop call patience => exact settled_stop hs hstarted hclosed call patience
  | advance span => exact settled_advance hs span

/-- **Whatever is done with a child that settled is a row of acts.** -/
theorem mimics_undergo (ha : Alone k) (hl : Lawful k) (hs : Settled (k.shown before)) (d : Doing) :
    MimicsAt before k (undergo · d) := by
  cases d with
  | start call =>
    have hstart : start call (k.shown before) = (k.shown before).finish call (.ok ()) :=
      if_pos (show (k.shown before).started = true from hl.started)
    simp only [undergo, MimicsAt, hstart]
    exact ⟨[.start call], by simp [Keeping.run, Keeping.perform, Keeping.note, Keeping.shown, finish,
      emit, Deed.effects], ha.hearers, ha.listeners, ha.killers⟩
  | send message => exact mimics_send message before k ha
  | writeOutput bytes => exact mimics_writeOutput bytes before k ha
  | writeErrors bytes => exact mimics_writeErrors bytes before k ha
  | endOutput => exact mimics_endOutput before k ha
  | markInputClosing => exact mimics_markInputClosing before k ha
  | exit code =>
    have hattend := (mimics_terminate code).comp mimics_attend before k ha
    refine hattend.comp fun acts hshown ha' => mimics_finishStops before ha' fun hexit => ?_
    rw [hshown]
    exact (done_terminate hs hl.ended code).finished
      ((congrArg (Option.isSome ∘ Child.exitCode) hshown).symm.trans hexit)
  | stop call patience => exact mimics_stop ha hl hs call patience
  | advance span => exact mimics_advance ha hs span

/-- What is done to a child is a row of acts. -/
theorem exists_acts (ha : Alone k) (hl : Lawful k) (hs : Settled (k.shown before))
    (doings : List Doing) :
    ∃ acts, (k.run acts).shown before = doings.foldl undergo (k.shown before) := by
  induction doings generalizing k with
  | nil => exact ⟨[], rfl⟩
  | cons d doings ih =>
    obtain ⟨first, hfirst, ha'⟩ := mimics_undergo ha hl hs d
    change _ = undergo (k.shown before) d at hfirst
    have hs' : Settled ((k.run first).shown before) :=
      hfirst ▸ settled_undergo hs hl.started hl.ended d
    obtain ⟨rest, hrest⟩ := ih ha' (hl.run first) hs'
    refine ⟨first ++ rest, ?_⟩
    rw [Keeping.run_append, hrest, hfirst]
    rfl

/-- A child that was started is one that is kept, with one handler of each
kind. -/
theorem shown_begun {setup : Setup} {c : Child} (hnew : new? setup = some c)
    (hstart : setup.startError = none) (call : String) :
    ((Keeping.begun c).run [.join, .enlist]).shown (c.start call).outbox = c.start call := by
  have hnil : readLines [] = ([], [], true) := by
    unfold readLines
    simp [splitLine, lineLimit]
  unfold new? at hnew
  split at hnew
  · cases hnew
  · cases hnew
    simp [Child.start, hstart, Keeping.run, Keeping.perform, Keeping.note, Keeping.begun,
      Keeping.shown, Deed.effects, attend, readOutput, readAll_nil, readerAfter, closeIfExited, drain,
      hnil, emit, log, finish]

/-- **The life cycle of a child.** Whatever happens to a child that was started,
in whichever order, its record is as it should be; and what `Child` does is a
part of it, everything being done at once. -/
theorem life_cycle (setup : Setup) (c : Child) (hnew : new? setup = some c)
    (hstart : setup.startError = none) :
    (∀ acts, LifeCycle ((Keeping.begun c).run acts)) ∧
    ∀ (call : String) (doings : List Doing), ∃ acts,
      ((Keeping.begun c).run (.join :: .enlist :: acts)).shown (c.start call).outbox
        = doings.foldl undergo (c.start call) := by
  have hfresh : c.closed = false ∧ c.output = [] ∧ c.exitCode = none ∧ c.stops = [] := by
    unfold new? at hnew
    split at hnew <;> cases hnew
    exact ⟨rfl, rfl, rfl, rfl⟩
  have hlawful := lawful_begun c hfresh.1 hfresh.2.1
  refine ⟨fun acts => (hlawful.run acts).lifeCycle, fun call doings => ?_⟩
  have hshown := shown_begun hnew hstart call
  have hrunning : ¬ ((Keeping.begun c).run [.join, .enlist]).child.exitCode.isSome = true := by
    change ¬ c.exitCode.isSome = true
    simp [hfresh.2.2.1]
  have hs : Settled (((Keeping.begun c).run [.join, .enlist]).shown (c.start call).outbox) := by
    refine ⟨⟨fun h => absurd h hrunning, fun h => absurd h hrunning⟩, fun h => absurd h hrunning, ?_⟩
    change ∀ s ∈ c.stops, _
    simp [hfresh.2.2.2]
  obtain ⟨acts, hacts⟩ := exists_acts (k := (Keeping.begun c).run [.join, .enlist])
    ⟨rfl, rfl, rfl⟩ (hlawful.run _) hs doings
  rw [hshown] at hacts
  exact ⟨acts, hacts⟩

/-- A setup with no more to it than the command. -/
def bareSetup : Setup := ⟨["tsserver"], none, [], none, none, fun _ => true⟩

/-- The first bytes of the frame of an empty object. -/
def frameStart : List UInt8 := [67, 111, 110, 116, 101, 110, 116, 45]

/-- The others, and a header block without a length. -/
def frameRest : List UInt8 :=
  [76, 101, 110, 103, 116, 104, 58, 50, 13, 10, 13, 10, 123, 125, 13, 10, 13, 10]

/-- The child writes them in two pieces, and the first of two handlers fails on
the message. A call that will not wait stops the child, and half a frame
comes too late. -/
def killedAmid : List Act :=
  [.join, .join, .enlist, .write frameStart, .turn fun _ => false, .write frameRest,
    .turn fun i => i == 0, .send (.obj []), .turn fun _ => false, .stop "stop" ⟨0⟩, .tire 0,
    .exit (-9), .bury 0, .send (.obj []), .write frameStart, .endOutput, .turn fun _ => false]

/-- What is heard and told of a child that is killed amid its output. -/
theorem life_cycle_killed :
    ∃ c, new? bareSetup = some c ∧ bareSetup.startError = none ∧
      LifeCycle ((Keeping.begun c).run killedAmid) ∧
      ((Keeping.begun c).run killedAmid).record =
        [.joined, .joined, .enlisted, .came frameStart, .came frameRest, .took (.ok (.obj [])),
          .handed 0 (.obj []) true, .handed 1 (.obj []) false, .asked (.obj []),
          .wrote ['\x7b', '\x7d', '\n'], .took (.error .invalidLength), .shut none, .told 0 none,
          .stopped "stop", .asked (.obj []), .refused (.closed .notRunning), .came frameStart] ∧
      ∃ acts, ((Keeping.begun c).run (.join :: .enlist :: acts)).shown (c.start "start").outbox
        = [.writeOutput frameStart, .stop "stop" ⟨0⟩, .send (.obj [])].foldl undergo
          (c.start "start") := by
  obtain ⟨c, hnew⟩ : ∃ c, new? bareSetup = some c := ⟨_, rfl⟩
  obtain ⟨hlife, hacts⟩ := life_cycle bareSetup c hnew rfl
  refine ⟨c, hnew, rfl, hlife killedAmid, ?_, hacts "start" _⟩
  cases hnew
  rfl

/-- A command with a number in it of more digits than are written. -/
def unwritable : Json := .obj [("n", .int (Nat.pow 10 Numeral.maxDigits))]

/-- **A command that cannot be written is refused on an open connection**: no line is
written for it, and it does not fail as it would on a closed one. -/
theorem send_unwritable :
    ∃ c, new? bareSetup = some c ∧ (Keeping.begun c).child.closed = false ∧
      (Keeping.begun c).child.inputClosing = false ∧
      (Keeping.begun c).child.send unwritable =
        ((Keeping.begun c).child, some (.value .badValue)) ∧
      ((Keeping.begun c).perform (.send unwritable)).record =
        [.asked unwritable, .refused (.value .badValue)] := by
  obtain ⟨c, hnew⟩ : ∃ c, new? bareSetup = some c := ⟨_, rfl⟩
  have hfaulty : line? unwritable = .error (.value .badValue) :=
    if_neg (by decide +kernel : ¬ unwritable.isWritable)
  refine ⟨c, hnew, ?_⟩
  cases hnew
  simp [Keeping.perform, Keeping.note, Keeping.begun, send, hfaulty]

end Child

end LanguageRelay
