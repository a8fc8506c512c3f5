import LanguageRelay.Proofs.Engine.Upkeep
/-!
# How requests stand

A request that was written stands at a fate: its call has come so far, or it
has ended and the client has been told (`Ledger.Stands`). Every step takes it
to the fate that comes of its label (`stands_step`), so that nothing decides
about a request but what comes for it.

Requests are neither lost nor told twice (`names_step`), and no window is over
before its time (`timed_step`).
-/

namespace LanguageRelay

namespace Ledger

/-- **How a request stands.** -/
inductive Stands (l : Ledger) (q : Written) : Fate → Prop where
  /-- Its call has come so far. -/
  | running {c : Call} (hc : (q.call, c) ∈ l.calls) (hof : c.Of q) : Stands l q c.fate
  /-- It has ended, and the client was told. -/
  | told {o : Except Failure Json} (hmade : q.call ≤ l.lastCall)
      (hout : ∀ c, (q.call, c) ∉ l.calls) (hended : (q.name, o.map .raw) ∈ l.ended) :
      Stands l q (.gone o)

/-- The names of the requests that have ended and of those that have not. -/
def names (l : Ledger) : List String := l.ended.map Prod.fst ++ l.calls.map fun x => x.2.name

/-- The window of a request is over at a time, and not before. -/
structure Timed (l : Ledger) (q : Written) (due : Int) : Prop where
  numbered : q.seq ≤ l.link.last
  timer : ∀ t ∈ l.timers, t.job = .expire q.call q.seq → t.due = due
  job : .expire q.call q.seq ∈ l.jobs → due ≤ l.now

variable {l l' : Ledger} {made : Option String} {ev : Written → Option Event} {q : Written}
variable {fate : Fate} {due : Int}

/-! ## Fates -/

theorem after_gone (o : Except Failure Json) (event : Option Event) :
    (Fate.gone o).after q event = .gone o := by
  cases event <;> rfl

/-- A call hears the tidings. -/
theorem fate_of_brings {tidings : Tidings} {link' : Link} {fx : List Effect} {c : Call}
    (hvalid : l.Valid) (hbrings : Relay.Brings tidings l.link link' fx)
    (hc : (q.call, c) ∈ l.calls) (hof : c.Of q) :
    (fx.foldl Call.learn c).fate = c.fate.after q ((tidings q.seq q.ask.command).map .heard) := by
  obtain ⟨-, hfate, -⟩ := hof.learn fx
  by_cases hdone : c.Answered
  · rw [Engine.foldl_learn_of_answered hdone]
    cases tidings q.seq q.ask.command with
    | none => rfl
    | some o => exact (hof.deaf hdone o).symm
  · rw [hfate, (hbrings.told_call (hvalid.proper _ hc) hof hdone).1]

/-- What has ended stays ended. -/
theorem told_step {o : Except Failure Json} (hstep : Step l made ev l') (hvalid : l.Valid)
    (hmade : q.call ≤ l.lastCall) (hout : ∀ c, (q.call, c) ∉ l.calls)
    (hended : (q.name, o.map .raw) ∈ l.ended) : l'.Stands q (.gone o) := by
  cases hstep with
  | made name command arguments window =>
    refine .told (Nat.le_succ_of_le hmade) (fun c hc => ?_) hended
    rcases List.mem_append.mp hc with hc | hc
    · exact hout c hc
    · have hid : q.call = l.lastCall + 1 := congrArg Prod.fst (List.mem_singleton.mp hc)
      omega
  | heard hbrings hwakes hwoken =>
    refine .told hmade (fun c hc => ?_) hended
    obtain ⟨x, hx, heq⟩ := List.mem_map.mp hc
    have hid : x.1 = q.call := congrArg Prod.fst heq
    exact hout x.2 (hid ▸ hx)
  | moved hother hturn =>
    refine .told hmade (fun c hc => ?_) hended
    rcases (Table.mem_update_iff hvalid.apart.single).mp hc with ⟨hid, -⟩ | ⟨-, hc⟩
    · exact hout _ (hid ▸ hturn.call)
    · exact hout c hc
  | ended hother hturn =>
    exact .told hmade (fun c hc => hout c (Table.mem_erase_iff.mp hc).1)
      (List.mem_append_left _ hended)
  | missed => exact .told hmade hout hended
  | passed => exact .told hmade hout hended
  | fell => exact .told hmade hout hended

/-- **Every step takes a request to the fate that comes of its label.** -/
theorem stands_step (hstep : Step l made ev l') (hvalid : l.Valid) (h : l.Stands q fate) :
    l'.Stands q (fate.after q (ev q)) := by
  cases h with
  | @told o hmade hout hended =>
    rw [after_gone]
    exact told_step hstep hvalid hmade hout hended
  | @running c hc hof =>
    cases hstep with
    | made name command arguments window => exact .running (List.mem_append_left _ hc) hof
    | @heard tidings link' fx js hbrings hwakes hwoken =>
      rw [← fate_of_brings hvalid hbrings hc hof]
      exact .running (List.mem_map_of_mem hc) (hof.learn fx).1
    | @moved id c₀ c' done rest js link' set ev hother hturn hproper hname hseq hanswered hposted
        hset hattended hfate =>
      by_cases hid : q.call = id
      · subst hid
        cases hvalid.apart.eq hturn.call hc
        obtain ⟨hof', hnext⟩ := hfate q rfl hof
        rw [← hnext]
        exact .running
          ((Table.mem_update_iff hvalid.apart.single).mpr (.inl ⟨rfl, c, hc, rfl⟩)) hof'
      · rw [hother q hid]
        exact .running ((Table.mem_update_iff hvalid.apart.single).mpr (.inr ⟨hid, hc⟩)) hof
    | @ended id c₀ done rest link' timers outcome ev hother hturn hsub hkept hfate =>
      by_cases hid : q.call = id
      · subst hid
        cases hvalid.apart.eq hturn.call hc
        obtain ⟨o, rfl, hnext⟩ := hfate q rfl hof
        rw [hnext]
        have hname : c.name = q.name := by
          cases hof
          rfl
        refine .told (hvalid.made _ hc) (fun d hd => (Table.mem_erase_iff.mp hd).2 rfl) ?_
        exact List.mem_append_right _ (by rw [hname]; exact List.mem_singleton_self _)
      · rw [hother q hid]
        exact .running (Table.mem_erase_iff.mpr ⟨hc, hid⟩) hof
    | @missed id done rest ev hother hnone hjobs hown =>
      have hid : q.call ≠ id := by
        rintro rfl
        exact hnone c hc
      rw [hother q hid]
      exact .running hc hof
    | passed hnow => exact .running hc hof
    | fell due later hdue hlater hall => exact .running hc hof

/-! ## Names -/

/-- Learning an outcome, a call keeps its name. -/
theorem name_learn (fx : List Effect) (c : Call) : (fx.foldl Call.learn c).name = c.name := by
  rcases Engine.foldl_learn_cases fx c with hsame | ⟨seq, ask, watch, next, o, -, hlearn⟩
  · rw [hsame]
  · rw [hlearn]
    rfl

/-- **A step tells of no request that was not made, and of none twice.** -/
theorem names_step (hstep : Step l made ev l') (hvalid : l.Valid) :
    l'.names.Perm (l.names ++ made.toList) := by
  cases hstep with
  | made name command arguments window =>
    exact .of_eq (by simp [names, Call.fresh, Call.name])
  | @heard tidings link' fx js hbrings hwakes hwoken =>
    have hnames : (l.calls.map fun x => (x.1, fx.foldl Call.learn x.2)).map (fun x => x.2.name) =
        l.calls.map fun x => x.2.name := by
      rw [List.map_map]
      exact List.map_congr_left fun x _ => name_learn fx x.2
    exact .of_eq (by simp only [names, hnames, Option.toList_none, List.append_nil])
  | @moved id c c' done rest js link' set ev hother hturn hproper hname =>
    have hnames : (Table.update id (fun _ => c') l.calls).map (fun x => x.2.name) =
        l.calls.map fun x => x.2.name := by
      rw [Table.update_eq_map _ hvalid.apart.single, List.map_map]
      refine List.map_congr_left fun x hx => ?_
      by_cases hid : x.1 = id
      · have hsame : x.2 = c := hvalid.apart.eq (hid ▸ hx) hturn.call
        simp [hid, hname, hsame]
      · simp [hid]
    exact .of_eq (by simp only [names, hnames, Option.toList_none, List.append_nil])
  | @ended id c done rest link' timers outcome ev hother hturn =>
    have herase := (Table.perm_erase hvalid.apart.single hturn.call).map fun x => x.2.name
    simp only [names, List.map_append, List.map_cons, List.map_nil, List.append_assoc,
      List.singleton_append, Option.toList_none, List.append_nil]
    exact (herase.append_left _).symm
  | missed => exact .of_eq (List.append_nil _).symm
  | passed => exact .of_eq (List.append_nil _).symm
  | fell => exact .of_eq (List.append_nil _).symm

/-! ## Windows -/

/-- **A window keeps its time.** -/
theorem timed_step (hstep : Step l made ev l') (h : l.Timed q due) : l'.Timed q due := by
  cases hstep with
  | made name command arguments window =>
    refine ⟨h.numbered, h.timer, fun hjob => ?_⟩
    rcases List.mem_append.mp hjob with hjob | hjob
    · exact h.job hjob
    · simp at hjob
  | @heard tidings link' fx js hbrings hwakes hwoken =>
    refine ⟨Nat.le_trans h.numbered hbrings.last, h.timer, fun hjob => ?_⟩
    rcases List.mem_append.mp hjob with hjob | hjob
    · exact h.job hjob
    · obtain ⟨x, -, -, hwakeup⟩ := hwakes _ hjob
      rcases wakeup?_cases hwakeup with hresume | ⟨seq, -, hpassOn⟩
      · cases hresume
      · cases hpassOn
  | @moved id c c' done rest js link' set ev hother hturn hproper hname hseq hanswered hposted
      hset =>
    refine ⟨Nat.le_trans h.numbered hturn.touched.last, fun t ht hjob => ?_, fun hjob => ?_⟩
    · rcases List.mem_append.mp ht with ht | ht
      · exact h.timer t ht hjob
      · -- The timer is for a number that was not given out before.
        obtain ⟨hnone, seq, hown, hnew⟩ := hset t ht
        rw [hown] at hjob
        cases hjob
        have hnumbered := h.numbered
        rcases hseq with hseq | ⟨-, hseq, -⟩
        · rw [hnew, hnone] at hseq
          cases hseq
        · have heq := Option.some.inj (hnew.symm.trans hseq)
          omega
    · rcases List.mem_append.mp hjob with hjob | hjob
      · exact h.job (hturn.mem_jobs hjob)
      · rcases hposted _ hjob with hresume | ⟨seq, hpassOn, -⟩
        · cases hresume
        · cases hpassOn
  | @ended id c done rest link' timers outcome ev hother hturn hsub =>
    exact ⟨Nat.le_trans h.numbered hturn.touched.last, fun t ht => h.timer t (hsub.subset ht),
      fun hjob => h.job (hturn.mem_jobs hjob)⟩
  | missed done hother hnone hjobs hown =>
    refine ⟨h.numbered, h.timer, fun hjob => h.job ?_⟩
    rw [hjobs]
    exact List.mem_append_right _ hjob
  | passed hnow => exact ⟨h.numbered, h.timer, fun hjob => Int.le_trans (h.job hjob) hnow⟩
  | fell due later hdue hlater hall =>
    refine ⟨h.numbered, fun t ht => h.timer t (hlater.subset ht), fun hjob => ?_⟩
    rcases List.mem_append.mp hjob with hjob | hjob
    · exact h.job hjob
    · obtain ⟨t, ht, hown⟩ := List.mem_map.mp hjob
      obtain ⟨hmem, hle⟩ := hdue t ht
      rw [← h.timer t hmem hown]
      exact hle

end Ledger

end LanguageRelay
