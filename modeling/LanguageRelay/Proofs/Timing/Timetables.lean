import LanguageRelay.Proofs.Timing.Alarms
/-!
# Timetables

Four things happen to the timer of a document: a check is scheduled, the
document is closed, the connection ends, or the timer goes off. These, turns
and the passing of time are the steps of a timetable (`Timetable.Step`).

Two invariants carry everything else. The timers that wait are those of the
documents, and no two are alike (`Timetable.Sound`). And the timer of a document waits
for the time of its schedule and the delay, and is in line at that time and no
other (`Timetable.Awaits`).
-/

namespace LanguageRelay

/-- What can happen to the timer of a document. -/
inductive Occasion where
  /-- A check is scheduled. -/
  | scheduled (uri : String)
  /-- The document is closed. -/
  | withdrawn (uri : String)
  /-- The connection ends, and with it every timer. -/
  | disconnected
  /-- The timer goes off. -/
  | fired (uri : String)
deriving DecidableEq, Repr

namespace Agenda

/-- Alarms are set and taken back whatever stands in line. -/
theorem foldl_tune_ready (fx : List Effect) (delay : Int) (a : Agenda Alarm) (ready : List Alarm) :
    fx.foldl (tune delay) { a with ready } = { fx.foldl (tune delay) a with ready } := by
  induction fx generalizing a with
  | nil => rfl
  | cons e rest ih =>
    have hone : tune delay { a with ready } e = { tune delay a e with ready } := by cases e <;> rfl
    rw [List.foldl_cons, List.foldl_cons, hone, ih]

@[simp] theorem ready_foldl_tune (fx : List Effect) (delay : Int) (a : Agenda Alarm) :
    (fx.foldl (tune delay) a).ready = a.ready := by
  have hsame : fx.foldl (tune delay) a = { fx.foldl (tune delay) a with ready := a.ready } :=
    foldl_tune_ready fx delay a a.ready
  rw [hsame]

end Agenda

/-- The time of the schedule that stands for a document, after an occasion. -/
def Occasion.since (uri : String) (now : Int) (s : Option Int) : Occasion → Option Int
  | .scheduled u => if u = uri then some now else s
  | .withdrawn u | .fired u => if u = uri then none else s
  | .disconnected => none

namespace Timetable

/-- **What happens to a timetable.** -/
inductive Step : Option Occasion → Timetable → Timetable → Prop where
  /-- A timer is set for a document; one it had is taken back. -/
  | scheduled (T : Timetable) (uri : String) :
      Step (some (.scheduled uri)) T
        ⟨{ T.relay with
            scheduled := Table.put uri (T.relay.last + 1) (Table.erase uri T.relay.scheduled)
            last := T.relay.last + 1 },
          (Relay.disarms uri T.relay.scheduled ++ [Effect.armed uri (T.relay.last + 1)]).foldl
            (Agenda.tune T.relay.delay) T.agenda⟩
  /-- The timer of a document is taken back. -/
  | withdrawn (T : Timetable) (uri : String) :
      Step (some (.withdrawn uri)) T
        ⟨{ T.relay with scheduled := Table.erase uri T.relay.scheduled },
          (Relay.disarms uri T.relay.scheduled).foldl (Agenda.tune T.relay.delay) T.agenda⟩
  /-- Every timer is taken back. -/
  | disconnected (T : Timetable) :
      Step (some .disconnected) T
        ⟨{ T.relay with scheduled := [] },
          (T.relay.scheduled.map fun x => Effect.disarmed x.1 x.2).foldl
            (Agenda.tune T.relay.delay) T.agenda⟩
  | fired {T : Timetable} {uri : String} {timer : Nat} {rest : List Alarm}
      (hline : T.agenda.ready = (uri, timer) :: rest)
      (hcurrent : Table.get? uri T.relay.scheduled = some timer) :
      Step (some (.fired uri)) T
        ⟨{ T.relay with scheduled := Table.erase uri T.relay.scheduled },
          { T.agenda with ready := rest }⟩
  /-- An alarm comes to nothing: its timer was taken back. -/
  | spent {T : Timetable} {x : Alarm} {rest : List Alarm} (hline : T.agenda.ready = x :: rest)
      (hspent : Table.get? x.1 T.relay.scheduled ≠ some x.2) :
      Step none T { T with agenda := { T.agenda with ready := rest } }
  | passed {T : Timetable} (time : Int) (hidle : T.agenda.ready = [])
      (hdue : ∀ t ∈ T.agenda.timers, T.agenda.now < t.due ∧ time ≤ t.due) :
      Step none T { T with agenda := T.agenda.moveTo time }
  /-- A turn begins. -/
  | turned {T : Timetable} {fell : List Alarm}
      (hfell : fell.Perm ((T.agenda.timers.filter fun t => t.due ≤ T.agenda.now).map Timer.job)) :
      Step none T
        { T with
          agenda := { T.agenda with
            ready := T.agenda.ready ++ fell
            timers := T.agenda.timers.filter fun t => !(t.due ≤ T.agenda.now) } }
  | same (T : Timetable) : Step none T T

variable {T T' : Timetable} {o : Option Occasion} {uri : String} {s : Option Int}

/-! ## The timers there are -/

/-- The timers that wait or are in line. -/
def alarms (T : Timetable) : List Alarm := T.agenda.timers.map Timer.job ++ T.agenda.ready

/-- **The timers that wait are those of the documents**, and no two are alike. -/
structure Sound (T : Timetable) : Prop where
  single : (Table.keys T.relay.scheduled).Nodup
  distinct : (T.alarms.map Prod.snd).Nodup
  given : ∀ x ∈ T.alarms, x.2 ≤ T.relay.last
  current : ∀ t ∈ T.agenda.timers, t.job ∈ T.relay.scheduled
  kept : ∀ x ∈ T.relay.scheduled, x ∈ T.alarms

/-- The timers that are live: those that wait, and those in line that have not
been taken back. -/
def live (T : Timetable) : List Alarm :=
  T.agenda.timers.map Timer.job ++ T.agenda.ready.filter T.relay.scheduled.contains

/-- **A timer is live for each document that has one, and no other is.** -/
theorem Sound.live_perm (h : T.Sound) : T.live.Perm T.relay.scheduled := by
  have hsub : T.live.Sublist T.alarms := List.filter_sublist.append_left _
  refine (List.perm_ext_iff_of_nodup ((h.distinct.of_map _).sublist hsub) (h.single.of_map _)).mpr
    fun x => ?_
  simp only [live, List.mem_append, List.mem_filter, List.contains_iff_mem]
  constructor
  · rintro (hx | ⟨-, hx⟩)
    · obtain ⟨t, ht, rfl⟩ := List.mem_map.mp hx
      exact h.current t ht
    · exact hx
  · intro hx
    exact (List.mem_append.mp (h.kept x hx)).imp_right fun hready => ⟨hready, hx⟩

/-- Without the timer of a document. -/
def without (uri : String) (T : Timetable) : Timetable :=
  ⟨{ T.relay with scheduled := Table.erase uri T.relay.scheduled },
    { T.agenda with timers := T.agenda.timers.filter fun t => t.job.1 ≠ uri }⟩

/-- The timer of a document is the one that waits for it. -/
theorem Sound.disarms (h : T.Sound) (uri : String) (delay : Int) :
    (Relay.disarms uri T.relay.scheduled).foldl (Agenda.tune delay) T.agenda =
      (T.without uri).agenda := by
  have hget : ∀ t ∈ T.agenda.timers, Table.get? t.job.1 T.relay.scheduled = some t.job.2 :=
    fun t ht => (Table.get?_eq_some_iff h.single).mpr (h.current t ht)
  unfold Relay.disarms without
  cases hcurrent : Table.get? uri T.relay.scheduled with
  | none =>
    have hnone : T.agenda.timers.filter (fun t => t.job.1 ≠ uri) = T.agenda.timers := by
      refine List.filter_eq_self.mpr fun t ht => ?_
      have hne : t.job.1 ≠ uri := by
        rintro rfl
        simp [hget t ht] at hcurrent
      simpa using hne
    simp only [Option.map_none, Option.toList_none, List.foldl_nil, hnone]
  | some timer =>
    have hone : T.agenda.timers.filter (fun t => !(t.job == (uri, timer))) =
        T.agenda.timers.filter fun t => t.job.1 ≠ uri := by
      refine List.filter_congr fun t ht => ?_
      by_cases huri : t.job.1 = uri
      · have hsame := hget t ht
        rw [huri, hcurrent] at hsame
        have hjob : t.job = (uri, timer) := Prod.ext huri (Option.some.inj hsame).symm
        simp [hjob]
      · have hjob : t.job ≠ (uri, timer) := fun heq => huri (congrArg Prod.fst heq)
        simp [huri, hjob]
    simp only [Option.map_some, Option.toList_some, List.foldl_cons, List.foldl_nil, Agenda.tune,
      Agenda.dropTimers, hone]

/-- The timers that are taken back wait no more. -/
theorem timers_disarmed (delay : Int) (taken : List Alarm) (a : Agenda Alarm) :
    ((taken.map fun x => Effect.disarmed x.1 x.2).foldl (Agenda.tune delay) a).timers =
      a.timers.filter fun t => t.job ∉ taken := by
  induction taken generalizing a with
  | nil => simp
  | cons x rest ih =>
    rw [List.map_cons, List.foldl_cons, ih]
    simp only [Agenda.tune, Agenda.dropTimers, List.filter_filter]
    refine List.filter_congr fun t _ => ?_
    by_cases hx : t.job = x <;> simp [hx]

theorem Sound.without (h : T.Sound) (uri : String) : (T.without uri).Sound := by
  have hsub : (T.without uri).alarms.Sublist T.alarms :=
    (List.filter_sublist.map Timer.job).append_right _
  refine ⟨Table.nodup_keys_erase h.single, h.distinct.sublist (hsub.map _),
    fun x hx => h.given x (hsub.subset hx), fun t ht => ?_, fun x hx => ?_⟩
  · obtain ⟨ht, huri⟩ := List.mem_filter.mp ht
    exact Table.mem_erase_iff.mpr ⟨h.current t ht, by simpa using huri⟩
  · obtain ⟨hx, huri⟩ := Table.mem_erase_iff.mp hx
    rcases List.mem_append.mp (h.kept x hx) with hx | hx
    · obtain ⟨t, ht, rfl⟩ := List.mem_map.mp hx
      exact List.mem_append_left _
        (List.mem_map_of_mem (List.mem_filter.mpr ⟨ht, by simpa using huri⟩))
    · exact List.mem_append_right _ hx

/-- A document without a timer gets one. -/
theorem Sound.arm (h : T.Sound) (hnone : Table.get? uri T.relay.scheduled = none) (due : Int) :
    Sound ⟨{ T.relay with
        scheduled := Table.put uri (T.relay.last + 1) T.relay.scheduled
        last := T.relay.last + 1 },
      { T.agenda with timers := T.agenda.timers ++ [⟨due, (uri, T.relay.last + 1)⟩] }⟩ := by
  have hnew : uri ∉ Table.keys T.relay.scheduled := by simp [Table.mem_keys_iff, hnone]
  have hput := Table.put_of_not_mem (T.relay.last + 1) hnew
  -- the new alarm stands between those that wait and those in line
  have hperm : (T.agenda.timers.map Timer.job ++ [(uri, T.relay.last + 1)] ++
      T.agenda.ready).Perm ((uri, T.relay.last + 1) :: T.alarms) := by
    rw [List.append_assoc]
    exact List.perm_middle
  have hmem : ∀ x, x ∈ T.agenda.timers.map Timer.job ++ [(uri, T.relay.last + 1)] ++
      T.agenda.ready ↔ x = (uri, T.relay.last + 1) ∨ x ∈ T.alarms := by
    intro x
    rw [hperm.mem_iff, List.mem_cons]
  refine ⟨Table.nodup_keys_put h.single, ?_, fun x hx => ?_, fun t ht => ?_, fun x hx => ?_⟩
  · simp only [alarms, List.map_append (f := Timer.job), List.map_cons, List.map_nil]
    refine ((hperm.map Prod.snd).nodup_iff).mpr (List.nodup_cons.mpr ⟨fun hmem => ?_, h.distinct⟩)
    obtain ⟨x, hx, heq⟩ := List.mem_map.mp hmem
    have hle := h.given x hx
    omega
  · simp only [alarms, List.map_append, List.map_cons, List.map_nil] at hx
    rcases (hmem x).mp hx with rfl | hx
    · exact Nat.le_refl _
    · exact Nat.le_succ_of_le (h.given x hx)
  · simp only [hput, List.mem_append, List.mem_singleton] at ht ⊢
    rcases ht with ht | rfl
    · exact .inl (h.current t ht)
    · exact .inr rfl
  · simp only [hput, List.mem_append, List.mem_singleton, alarms, List.map_append, List.map_cons,
      List.map_nil] at hx ⊢
    rcases hx with hx | rfl
    · have hx := h.kept x hx
      simp only [alarms, List.mem_append] at hx
      tauto
    · exact .inl (.inr rfl)

/-- The first alarm in line is done with; if it was the document's timer, the
document has none any more. -/
theorem Sound.rest {x : Alarm} {rest : List Alarm} {scheduled : List Alarm} (h : T.Sound)
    (hline : T.agenda.ready = x :: rest)
    (hscheduled : ∀ y, y ∈ scheduled ↔ y ∈ T.relay.scheduled ∧ y ≠ x)
    (hsingle : (Table.keys scheduled).Nodup) :
    Sound ⟨{ T.relay with scheduled }, { T.agenda with ready := rest }⟩ := by
  have hperm : T.alarms.Perm (x :: (T.agenda.timers.map Timer.job ++ rest)) := by
    rw [alarms, hline]
    exact List.perm_middle
  have hdistinct := (hperm.map Prod.snd).nodup_iff.mp h.distinct
  refine ⟨hsingle, (List.nodup_cons.mp hdistinct).2,
    fun y hy => h.given y (hperm.mem_iff.mpr (List.mem_cons_of_mem _ hy)), fun t ht => ?_,
    fun y hy => ?_⟩
  · refine (hscheduled _).mpr ⟨h.current t ht, ?_⟩
    rintro rfl
    refine (List.nodup_cons.mp hdistinct).1 (List.mem_map_of_mem (List.mem_append_left _ ?_))
    exact List.mem_map_of_mem ht
  · obtain ⟨hy, hne⟩ := (hscheduled y).mp hy
    exact (List.mem_cons.mp (hperm.mem_iff.mp (h.kept y hy))).resolve_left hne

/-- **Every step keeps the timers sound.** -/
theorem Sound.step (hstep : Step o T T') (h : T.Sound) : T'.Sound := by
  cases hstep with
  | scheduled _ uri =>
    rw [List.foldl_append, h.disarms]
    refine (h.without uri).arm ?_ _
    exact (Table.get?_erase _ _ _).trans (if_pos rfl)
  | withdrawn _ uri =>
    rw [h.disarms]
    exact h.without uri
  | disconnected =>
    -- whatever waits is a document's, and what is in line comes to nothing
    have htimers : ((T.relay.scheduled.map fun x => Effect.disarmed x.1 x.2).foldl
        (Agenda.tune T.relay.delay) T.agenda).timers = [] := by
      rw [timers_disarmed]
      exact List.filter_eq_nil_iff.mpr fun t ht => by simp [h.current t ht]
    have halarms : alarms ⟨{ T.relay with scheduled := [] },
        (T.relay.scheduled.map fun x => Effect.disarmed x.1 x.2).foldl
          (Agenda.tune T.relay.delay) T.agenda⟩ = T.agenda.ready := by
      simp [alarms, htimers]
    have hsub : T.agenda.ready.Sublist T.alarms := List.sublist_append_right _ _
    refine ⟨List.nodup_nil, ?_, fun x hx => ?_, fun t ht => ?_, by simp⟩
    · rw [halarms]
      exact h.distinct.sublist (hsub.map _)
    · rw [halarms] at hx
      exact h.given x (hsub.subset hx)
    · rw [htimers] at ht
      cases ht
  | @fired _ uri timer rest hline hcurrent =>
    have hmem : (uri, timer) ∈ T.relay.scheduled := Table.mem_of_get? hcurrent
    refine h.rest hline (fun y => ?_) (Table.nodup_keys_erase h.single)
    rw [Table.mem_erase_iff, and_congr_right_iff]
    refine fun hy => ⟨fun hne heq => hne (heq ▸ rfl), fun hne huri => hne ?_⟩
    have hsame := (Table.get?_eq_some_iff h.single).mpr hy
    rw [huri, hcurrent] at hsame
    exact Prod.ext huri (Option.some.inj hsame).symm
  | @spent _ x rest hline hspent =>
    refine h.rest hline (fun y => (and_iff_left_of_imp ?_).symm) h.single
    rintro hy rfl
    exact hspent ((Table.get?_eq_some_iff h.single).mpr hy)
  | passed time => exact ⟨h.single, h.distinct, h.given, h.current, h.kept⟩
  | @turned _ fell hfell =>
    -- alarms move from those that wait to the line, and none is lost
    have hsplit := List.filter_append_perm (fun t : Timer Alarm => decide (t.due ≤ T.agenda.now))
      T.agenda.timers
    have hperm : (alarms { T with
        agenda := { T.agenda with
          ready := T.agenda.ready ++ fell
          timers := T.agenda.timers.filter fun t => !(t.due ≤ T.agenda.now) } }).Perm T.alarms := by
      refine .trans ?_ ((hsplit.map Timer.job).append_right _)
      simp only [alarms, ← List.append_assoc, List.map_append]
      refine (hfell.append_left _).trans (List.perm_append_comm.trans (.of_eq ?_))
      rw [List.append_assoc]
    exact ⟨h.single, (hperm.map Prod.snd).nodup_iff.mpr h.distinct,
      fun x hx => h.given x (hperm.mem_iff.mp hx),
      fun t ht => h.current t (List.mem_of_mem_filter ht),
      fun x hx => hperm.mem_iff.mpr (h.kept x hx)⟩
  | same => exact h

/-! ## The time a timer waits for -/

/-- The timer of a document waits for the time of the schedule that stands for
it and the delay. At that time it may be in line, and it is never late. -/
def Awaits (uri : String) (T : Timetable) : Option Int → Prop
  | none => Table.get? uri T.relay.scheduled = none
  | some since => ∃ timer, Table.get? uri T.relay.scheduled = some timer ∧
    (⟨since + T.relay.delay, (uri, timer)⟩ ∈ T.agenda.timers ∧
        T.agenda.now ≤ since + T.relay.delay ∨
      (uri, timer) ∈ T.agenda.ready ∧ T.agenda.now = since + T.relay.delay)

/-- What concerns other documents alone leaves the timer of a document. -/
theorem Awaits.keep (h : T.Awaits uri s) (hdelay : T'.relay.delay = T.relay.delay)
    (hget : Table.get? uri T'.relay.scheduled = Table.get? uri T.relay.scheduled)
    (hnow : T'.agenda.now = T.agenda.now)
    (htimers : ∀ t ∈ T.agenda.timers, t.job.1 = uri → t ∈ T'.agenda.timers)
    (hready : ∀ timer, (uri, timer) ∈ T.agenda.ready →
      Table.get? uri T.relay.scheduled = some timer → (uri, timer) ∈ T'.agenda.ready) :
    T'.Awaits uri s := by
  cases s with
  | none => exact hget.trans h
  | some since =>
    obtain ⟨timer, hcurrent, hwaits⟩ := h
    refine ⟨timer, hget.trans hcurrent, ?_⟩
    rw [hdelay, hnow]
    exact hwaits.imp (And.imp_left fun hmem => htimers _ hmem rfl)
      (And.imp_left fun hmem => hready timer hmem hcurrent)

/-- **Every step keeps a timer to its time.** -/
theorem Awaits.step (hstep : Step o T T') (hsound : T.Sound) (hdelay : 0 ≤ T.relay.delay)
    (h : T.Awaits uri s) : T'.Awaits uri (o.elim s (Occasion.since uri T.agenda.now s)) := by
  have hwithout : ∀ u, u ≠ uri → ∀ t ∈ T.agenda.timers, t.job.1 = uri →
      t ∈ (T.without u).agenda.timers := by
    rintro u hu t ht rfl
    exact List.mem_filter.mpr ⟨ht, by simpa using Ne.symm hu⟩
  cases hstep with
  | scheduled _ u =>
    rw [List.foldl_append, hsound.disarms]
    simp only [Option.elim_some, Occasion.since]
    split
    · rename_i hu
      subst hu
      refine ⟨T.relay.last + 1, (Table.get?_put ..).trans (if_pos rfl), .inl ⟨?_, ?_⟩⟩
      · exact List.mem_append_right _ (List.mem_singleton_self _)
      · exact Int.le_add_of_nonneg_right hdelay
    · rename_i hu
      refine h.keep rfl ?_ rfl (fun t ht huri => ?_) fun _ hmem _ => hmem
      · rw [Table.get?_put, if_neg hu, Table.get?_erase, if_neg hu]
      · exact List.mem_append_left _ (hwithout u hu t ht huri)
  | withdrawn _ u =>
    rw [hsound.disarms]
    simp only [Option.elim_some, Occasion.since]
    split
    · rename_i hu
      exact (Table.get?_erase ..).trans (if_pos hu)
    · rename_i hu
      refine h.keep rfl ?_ rfl (hwithout u hu) fun _ hmem _ => hmem
      exact (Table.get?_erase ..).trans (if_neg hu)
  | disconnected => rfl
  | @fired _ u timer rest hline hcurrent =>
    simp only [Option.elim_some, Occasion.since]
    split
    · rename_i hu
      exact (Table.get?_erase ..).trans (if_pos hu)
    · rename_i hu
      refine h.keep rfl ?_ rfl (fun t ht _ => ht) fun n hmem _ => ?_
      · exact (Table.get?_erase ..).trans (if_neg hu)
      · rw [hline] at hmem
        exact (List.mem_cons.mp hmem).resolve_left fun heq => hu (congrArg Prod.fst heq).symm
  | @spent _ x rest hline hspent =>
    refine h.keep rfl rfl rfl (fun t ht _ => ht) fun n hmem hcurrent => ?_
    rw [hline] at hmem
    refine (List.mem_cons.mp hmem).resolve_left ?_
    rintro rfl
    exact hspent hcurrent
  | passed time hidle hdue =>
    cases s with
    | none => exact h
    | some since =>
      -- the clock stops at the timer, and nothing in line is left behind
      obtain ⟨timer, hcurrent, ⟨hmem, hle⟩ | ⟨hmem, -⟩⟩ := h
      · exact ⟨timer, hcurrent, .inl ⟨hmem, Int.max_le.mpr ⟨hle, (hdue _ hmem).2⟩⟩⟩
      · rw [hidle] at hmem
        cases hmem
  | @turned _ fell hfell =>
    cases s with
    | none => exact h
    | some since =>
      obtain ⟨timer, hcurrent, ⟨hmem, hle⟩ | ⟨hmem, hnow⟩⟩ := h
      · refine ⟨timer, hcurrent, ?_⟩
        by_cases hdue : since + T.relay.delay ≤ T.agenda.now
        · refine .inr ⟨List.mem_append_right _ (hfell.mem_iff.mpr ?_), Int.le_antisymm hle hdue⟩
          exact List.mem_map.mpr ⟨_, List.mem_filter.mpr ⟨hmem, by simpa using hdue⟩, rfl⟩
        · exact .inl ⟨List.mem_filter.mpr ⟨hmem, by simpa using hdue⟩, hle⟩
      · exact ⟨timer, hcurrent, .inr ⟨List.mem_append_left _ hmem, hnow⟩⟩
  | same => exact h

/-- **A timer goes off at its time**, and only if a schedule stands. -/
theorem due_of_fired (hstep : Step (some (.fired uri)) T T') (hsound : T.Sound)
    (h : T.Awaits uri s) : s = some (T.agenda.now - T.relay.delay) := by
  cases hstep with
  | @fired _ _ timer rest hline hcurrent =>
    cases s with
    | none =>
      rw [Awaits, hcurrent] at h
      cases h
    | some since =>
      obtain ⟨timer', hcurrent', hwaits⟩ := h
      obtain rfl : timer' = timer := Option.some.inj (hcurrent'.symm.trans hcurrent)
      rcases hwaits with ⟨hmem, -⟩ | ⟨-, hnow⟩
      · -- it is in line, so it does not wait any more
        have hdistinct := hsound.distinct
        rw [alarms, hline, List.map_append, List.nodup_append] at hdistinct
        refine absurd rfl (hdistinct.2.2 timer' ?_ timer' List.mem_cons_self)
        exact List.mem_map_of_mem (List.mem_map_of_mem hmem)
      · simp [hnow]

/-! ## What no step changes -/

theorem now_foldl_tune (fx : List Effect) (delay : Int) (a : Agenda Alarm) :
    (fx.foldl (Agenda.tune delay) a).now = a.now := by
  induction fx generalizing a with
  | nil => rfl
  | cons e rest ih =>
    rw [List.foldl_cons, ih]
    cases e <;> rfl

theorem delay_step (hstep : Step o T T') : T'.relay.delay = T.relay.delay := by
  cases hstep <;> rfl

/-- The clock never goes back. -/
theorem now_step (hstep : Step o T T') : T.agenda.now ≤ T'.agenda.now := by
  cases hstep with
  | scheduled | withdrawn | disconnected => exact Int.le_of_eq (now_foldl_tune _ _ _).symm
  | passed time => exact Int.le_max_left _ _
  | _ => exact Int.le_refl _

end Timetable

end LanguageRelay
