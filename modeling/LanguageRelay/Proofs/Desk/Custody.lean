import LanguageRelay.Proofs.Desk.SingleFlight
/-!
# In whose hands the processes are

Every process that came up is in exactly one hand: of the call that starts it, in use,
of the call that stops it, or stopped; or it was lost (`custody`). When no start and no
stop is in progress, a process that runs is thus the one in use, or was lost.

A process is lost where a start fails whose process is up, and where a call that stops
one ends before that has ended: it runs on, is not in use, and no shutdown will stop
it (`process_is_orphaned`). As long as none was lost, at most one runs, and none once
a shutdown is over.
-/

namespace LanguageRelay

/-- The process that was launched came up, and was not stopped. -/
def Launch.Runs (l : Launch) : Prop := l.started = true ∧ l.stopped = 0

instance (l : Launch) : Decidable l.Runs := inferInstanceAs (Decidable (_ ∧ _))

namespace Station

variable {s : Station} {log : List Dealing} {l : Launch} {i : Nat}

namespace Sound

/-- A process came up once. -/
theorem made_once (h : s.Sound log) (i : Nat) :
    s.launches.countP (fun l => l.relay = some i) ≤ 1 := by
  have hcount := List.nodup_iff_count_le_one.mp (h.numbered ▸ List.nodup_range) i
  rw [List.count_filterMap] at hcount
  exact Nat.le_trans (Nat.le_of_eq (List.countP_congr fun l _ => by simp)) hcount

/-- Its number is among those that came up. -/
theorem lt_made (h : s.Sound log) (hl : l ∈ s.launches) (hrelay : l.relay = some i) : i < s.made :=
  List.mem_range.mp (h.numbered ▸ List.mem_filterMap.mpr ⟨l, hl, hrelay⟩)

/-- **A process is stopped once it was**, and no other launch is of it. -/
theorem countP_isStopped (h : s.Sound log) (hl : l ∈ s.launches) (hrelay : l.relay = some i) :
    s.launches.countP (isStopped i) = if l.stopped = 0 then 0 else 1 := by
  obtain ⟨before, after, heq⟩ := List.append_of_mem hl
  have honce := h.made_once i
  rw [heq, List.countP_append, List.countP_cons_of_pos (by simpa using hrelay)] at honce
  have hothers : ∀ l' ∈ before ++ after, l'.relay ≠ some i := by
    intro l' hl' hsame
    have hpos : 0 < (before ++ after).countP fun l => l.relay = some i :=
      List.countP_pos_iff.mpr ⟨l', hl', by simpa using hsame⟩
    rw [List.countP_append] at hpos
    omega
  have hnone : ∀ ls ⊆ before ++ after, List.countP (isStopped i) ls = 0 := fun ls hsub =>
    List.countP_eq_zero.mpr fun l' hl' => by simp [isStopped, hothers l' (hsub hl')]
  rw [heq, List.countP_append, List.countP_cons, hnone before (List.subset_append_left _ _),
    hnone after (List.subset_append_right _ _)]
  by_cases hstopped : l.stopped = 0 <;> simp [isStopped, hrelay, hstopped]

/-- **Where nobody is at work on a process, one that runs is in use or was lost**, not
both. -/
theorem runs_iff (h : s.Sound log) (hposts : s.posts = 0) (hl : l ∈ s.launches)
    (hrelay : l.relay = some i) :
    (l.Runs ↔ s.current = some i ∨ i ∈ Dealing.losses log) ∧
      ¬(s.current = some i ∧ i ∈ Dealing.losses log) := by
  have hstarted : l.started = true := by rw [h.started l hl, hrelay]; rfl
  have hhands := h.hands i
  rw [Station.hands, hposts, h.countP_isStopped hl hrelay, if_pos (h.lt_made hl hrelay)] at hhands
  have hlost : i ∈ Dealing.losses log ↔ 0 < (Dealing.losses log).count i :=
    List.count_pos_iff.symm
  have huse : s.current = some i ↔ s.current.toList.count i = 1 := by
    cases s.current with
    | none => simp
    | some j => by_cases hj : j = i <;> simp [hj]
  rw [hlost, huse, Launch.Runs]
  simp only [Multiset.countP_zero, hstarted, true_and] at hhands ⊢
  split at hhands <;> omega

end Sound

end Station

namespace Engine

/-- No start and no stop of a process is in progress. -/
def AtEase (e : Engine) : Prop := ∀ x ∈ e.calls, x.2.stage.task? = none

variable {e : Engine}

theorem AtEase.posts (h : e.AtEase) : e.posts = 0 := by
  refine Multiset.eq_zero_of_forall_notMem fun p hp => ?_
  obtain ⟨x, hx, hpost⟩ := List.mem_filterMap.mp (Multiset.mem_coe.mp hp)
  simp [Call.post?, h x hx] at hpost

/-- **Processes are in custody** after a run. -/
structure Custody (incidents : List Incident) (m : Moment) : Prop where
  /-- Every process that came up has a relay of its own. -/
  started : ∀ l ∈ (undergo incidents m).engine.desk.launches, l.started = l.relay.isSome
  numbered : (undergo incidents m).engine.desk.launches.filterMap Launch.relay =
    List.range (undergo incidents m).engine.relays.length
  /-- **Every process that came up is in exactly one hand**: of a call at work on it, in use,
  or stopped; or it was lost. -/
  hands : ∀ i < (undergo incidents m).engine.relays.length,
    (undergo incidents m).engine.station.hands i +
      (Dealing.losses (dealingsOf incidents m)).count i = 1
  /-- When no start and no stop is in progress, the processes that run are the one in use
  and those that were lost. -/
  runs : (undergo incidents m).engine.AtEase →
    ∀ l ∈ (undergo incidents m).engine.desk.launches, l.Runs ↔
      ∃ i, l.relay = some i ∧ ((undergo incidents m).engine.desk.current = some i ∨
        i ∈ Dealing.losses (dealingsOf incidents m))
  /-- A process is lost where its start fails once it is up, or where a call that stops it
  ends before it has. -/
  lost : ∀ i ∈ Dealing.losses (dealingsOf incidents m),
    (∃ id f, .fail id (some i) f ∈ dealingsOf incidents m) ∨ .abandon i ∈ dealingsOf incidents m
  /-- As long as none was lost, a process that runs is the one in use. -/
  owned : (undergo incidents m).engine.AtEase → Dealing.losses (dealingsOf incidents m) = [] →
    ∀ l ∈ (undergo incidents m).engine.desk.launches, l.Runs →
      l.relay.isSome ∧ l.relay = (undergo incidents m).engine.desk.current
  /-- So one runs at most. -/
  alone : (undergo incidents m).engine.AtEase → Dealing.losses (dealingsOf incidents m) = [] →
    ((undergo incidents m).engine.desk.launches.countP fun l => l.Runs) ≤ 1
  /-- And none runs if none was put to use since a shutdown ran last. -/
  shut : (undergo incidents m).engine.AtEase → Dealing.losses (dealingsOf incidents m) = [] →
    Dealing.inUse (dealingsOf incidents m) = [] →
    ∀ l ∈ (undergo incidents m).engine.desk.launches, ¬l.Runs

theorem mem_losses {log : List Dealing} {i : Nat} (hmem : i ∈ Dealing.losses log) :
    (∃ id f, .fail id (some i) f ∈ log) ∨ .abandon i ∈ log := by
  obtain ⟨d, hd, hlost⟩ := List.mem_filterMap.mp hmem
  cases d with
  | fail id relay f =>
    obtain rfl : relay = some i := hlost
    exact .inl ⟨id, f, hd⟩
  | abandon j =>
    obtain rfl : j = i := Option.some.inj hlost
    exact .inr hd
  | _ => cases hlost

/-- **Custody.** Over any run. -/
theorem custody (setup : Setup) (startFailures : List (Option String))
    (incidents : List Incident) : Custody incidents (.desk setup startFailures) := by
  have hsound := (flown_undergo setup startFailures incidents).sound
  generalize Moment.desk setup startFailures = m at *
  have hruns : (undergo incidents m).engine.AtEase →
      ∀ l ∈ (undergo incidents m).engine.desk.launches, l.Runs ↔
        ∃ i, l.relay = some i ∧ ((undergo incidents m).engine.desk.current = some i ∨
          i ∈ Dealing.losses (dealingsOf incidents m)) := by
    intro hease l hl
    cases hrelay : l.relay with
    | none =>
      have hstarted : l.started = false := by rw [hsound.started l hl, hrelay]; rfl
      simp [Launch.Runs, hstarted]
    | some i =>
      have hruns := (hsound.runs_iff hease.posts hl hrelay).1
      change l.Runs ↔ (undergo incidents m).engine.desk.current = some i ∨ _ at hruns
      simpa using hruns
  have howned : (undergo incidents m).engine.AtEase →
      Dealing.losses (dealingsOf incidents m) = [] →
      ∀ l ∈ (undergo incidents m).engine.desk.launches, l.Runs →
        l.relay.isSome ∧ l.relay = (undergo incidents m).engine.desk.current := by
    intro hease hnone l hl hl'
    obtain ⟨i, hrelay, hcurrent | hlost⟩ := (hruns hease l hl).mp hl'
    · exact ⟨by simp [hrelay], hrelay.trans hcurrent.symm⟩
    · rw [hnone] at hlost
      cases hlost
  refine ⟨hsound.started, hsound.numbered, fun i hi => ?_, hruns, fun i hi => mem_losses hi, howned,
    fun hease hnone => ?_, fun hease hnone hunused l hl hl' => ?_⟩
  · exact (hsound.hands i).trans (if_pos hi)
  · cases hcurrent : (undergo incidents m).engine.desk.current with
    | none =>
      refine Nat.le_trans (Nat.le_of_eq (List.countP_eq_zero.mpr fun l hl hl' => ?_)) (Nat.zero_le 1)
      obtain ⟨hsome, heq⟩ := howned hease hnone l hl (by simpa using hl')
      simp [heq, hcurrent] at hsome
    | some i =>
      refine Nat.le_trans (List.countP_mono_left fun l hl hl' => ?_) (hsound.made_once i)
      simpa [hcurrent] using (howned hease hnone l hl (by simpa using hl')).2
  · obtain ⟨hsome, heq⟩ := howned hease hnone l hl hl'
    have hcurrent : (undergo incidents m).engine.desk.current.toList = [] :=
      hsound.inUse.symm.trans hunused
    rw [heq] at hsome
    cases hvacant : (undergo incidents m).engine.desk.current with
    | none => simp [hvacant] at hsome
    | some i => simp [hvacant] at hcurrent

/-- The analysis server is started, its relay introduces itself and is answered badly.
Then the client shuts the language server down. -/
def orphaning : List Incident :=
  let answer := Json.obj [("type", .str "response"), ("request_seq", .int 1),
    ("command", .str Service.configureName), ("success", .bool false)]
  let turn := fun jobs => (Action.turn :: List.replicate jobs .job).map Errand.plain
  (.call "start" .initialized :: turn 1 ++ .receive 0 answer :: turn 1 ++ turn 1
    ++ .call "stop" .shutdown :: turn 1).map .errand

/-- **A process is orphaned** if its start fails once it is up: nobody is at work on it
nor does anything remain to be done, the client was told that the start failed and that
the language server is shut down, and the process runs on, unstopped. -/
theorem process_is_orphaned :
    let m : Moment := .desk { Relay.syntaxOnly with window := some (.ofMillis 1000) } []
    let e := (undergo orphaning m).engine
    e.calls.length = 0 ∧ (undergo orphaning m).jobs.length = 0 ∧ e.desk.current = none ∧
      e.ended.map (fun c => (c.1, complaint? c)) =
        [("start", some "configure failed"), ("stop", none)] ∧
      e.desk.launches.map (fun l => (l.started, l.stopped, l.relay)) = [(true, 0, some 0)] ∧
      e.relays.map (fun r => r.link.closed.isSome) = [false] := by
  intro m e
  decide +kernel

end Engine

end LanguageRelay
