import LanguageRelay.Proofs.Checks.Order
import LanguageRelay.Proofs.Checks.Newer
import Mathlib.Data.List.Nodup
/-!
# Checks in flight

A check that is in flight for a document was written, it is about the file of
the document's record, and it is in flight for no other document. So the
completion of a check finds its own document (`Traced.find`), whatever else
the analysis server says. No order of events is assumed, and documents may
share a file.

A step keeps the checks in flight, or adds the one it writes: that is all
that the invariant needs of it (`Carries`).
-/

namespace LanguageRelay

namespace Relay

variable {uris : List String} {r r' : Relay} {uri : String} {c c' : CheckState}

/-- **Checks in flight are traced** to the commands that were written, and no
number to two documents. -/
structure Traced (r : Relay) : Prop where
  sent : ∀ uri c, r.check? uri = some c → ∀ e ∈ c.inFlight,
    ((e.seq : Int), c.file) ∈ written r.outbox
  apart : ∀ u v c d, r.check? u = some c → r.check? v = some d → ∀ e ∈ c.inFlight,
    ∀ e' ∈ d.inFlight, e.seq = e'.seq → u = v

theorem traced_new (setup : Setup) : (Relay.new setup).Traced where
  sent uri c h := by simp [Relay.new, check?] at h
  apart u v c d h := by simp [Relay.new, check?] at h

/-- A check in flight is carried over, or it was written meanwhile for the
document `target`. -/
def Carries (target : String) (r r' : Relay) : Prop :=
  ∀ u c', r'.check? u = some c' → ∀ e' ∈ c'.inFlight,
    (∃ c, r.check? u = some c ∧ c.file = c'.file ∧ ∃ e ∈ c.inFlight, e.seq = e'.seq) ∨
      (u = target ∧ r.link.last < e'.seq ∧ ((e'.seq : Int), c'.file) ∈ written r'.outbox)

/-- Numbers given out later are in flight for no document, so what is carried
over stays traced. -/
theorem Traced.carry (h : r.Traced) (hsound : r.Sound) (hnumbers : NumbersOn r r')
    (hcarries : ∃ target, Carries target r r') : r'.Traced := by
  obtain ⟨target, hcarries⟩ := hcarries
  obtain ⟨fx, hfx, -⟩ := hnumbers.written
  have hgiven : ∀ u c, r.check? u = some c → ∀ e ∈ c.inFlight, e.seq ≤ r.link.last :=
    fun u c hc e he => ((hsound.states u c hc).bounded e he).1
  refine ⟨fun u c' hc' e' he' => ?_, fun u v c' d' hc' hd' e' he' f' hf' hseq => ?_⟩
  · rcases hcarries u c' hc' e' he' with ⟨c, hc, hfile, e, he, hseq⟩ | ⟨-, -, hsent⟩
    · have hsent := h.sent u c hc e he
      rw [hfx, written, List.filterMap_append]
      exact List.mem_append_left _ (by rwa [hfile, hseq] at hsent)
    · exact hsent
  · rcases hcarries u c' hc' e' he' with ⟨c, hc, -, e, he, hue⟩ | ⟨hu, hlt, -⟩ <;>
      rcases hcarries v d' hd' f' hf' with ⟨d, hd, -, f, hf, hvf⟩ | ⟨hv, hlt', -⟩
    · exact h.apart u v c d hc hd e he f hf (by omega)
    · have hle := hgiven u c hc e he
      omega
    · have hle := hgiven v d hd f hf
      omega
    · rw [hu, hv]

/-! ## What steps and news carry over -/

/-- Where all records keep their files and numbers, all is carried over. -/
theorem carries_of_same (target : String)
    (h : ∀ u c', r'.check? u = some c' → ∃ c, r.check? u = some c ∧ c.file = c'.file ∧
      ∀ e' ∈ c'.inFlight, ∃ e ∈ c.inFlight, e.seq = e'.seq) : Carries target r r' := by
  intro u c' hc' e' he'
  obtain ⟨c, hc, hfile, hnumbers⟩ := h u c' hc'
  exact .inl ⟨c, hc, hfile, hnumbers e' he'⟩

theorem carries_of_checks (target : String) (h : r'.checks = r.checks) : Carries target r r' :=
  carries_of_same target fun u c' hc' =>
    ⟨c', by rwa [check?, ← h], rfl, fun e' he' => ⟨e', he', rfl⟩⟩

/-- All records may change, if they keep their files and checks in flight. -/
theorem carries_mapChecks (target : String) {f : CheckState → CheckState}
    (hsame : ∀ c, (f c).file = c.file ∧ (f c).inFlight = c.inFlight)
    (hchecks : r'.checks = (r.mapChecks f).checks) : Carries target r r' := by
  refine carries_of_same target fun u c' hc' => ?_
  rw [check?, hchecks, ← check?, check?_mapChecks] at hc'
  obtain ⟨c, hc, rfl⟩ := Option.map_eq_some_iff.mp hc'
  obtain ⟨hfile, hinFlight⟩ := hsame c
  exact ⟨c, hc, hfile.symm, fun e' he' => ⟨e', by rwa [← hinFlight], rfl⟩⟩

/-- A record may be set, if each of its checks is carried over or was
written. -/
theorem carries_put (c' : CheckState) (hchecks : r'.checks = Table.put uri c' r.checks)
    (h : ∀ e' ∈ c'.inFlight,
      (∃ c, r.check? uri = some c ∧ c.file = c'.file ∧ ∃ e ∈ c.inFlight, e.seq = e'.seq) ∨
        (r.link.last < e'.seq ∧ ((e'.seq : Int), c'.file) ∈ written r'.outbox)) :
    Carries uri r r' := by
  intro u d hd e' he'
  rcases check?_put_cases hchecks hd with ⟨rfl, rfl⟩ | ⟨-, hd⟩
  · rcases h e' he' with hold | ⟨hlt, hsent⟩
    · exact .inl hold
    · exact .inr ⟨rfl, hlt, hsent⟩
  · exact .inl ⟨d, hd, rfl, e', he', rfl⟩

/-- A record that is set may be that of a record with fewer checks in
flight. -/
theorem carries_put_of_subset (hcheck : r.check? uri = some c) (c' : CheckState)
    (hfile : c.file = c'.file) (hnumbers : ∀ e' ∈ c'.inFlight, ∃ e ∈ c.inFlight, e.seq = e'.seq)
    (hchecks : r'.checks = Table.put uri c' r.checks) : Carries uri r r' :=
  carries_put c' hchecks fun e' he' => .inl ⟨c, hcheck, hfile, hnumbers e' he'⟩

/-- **A check that is written joins those in flight**, under its own
number. -/
theorem carries_asked (r₀ : Relay) (hcheck : r.check? uri = some c) (d : CheckState)
    (hfile : c.file = d.file) (hnumbers : ∀ e ∈ d.inFlight, e ∈ c.inFlight)
    (hlast : r₀.link.last = r.link.last)
    (hchecks : r'.checks = Table.put uri (d.asked r.setup.categories r.nextSeq) r.checks)
    (houtbox : r'.outbox = (r₀.wrote d.file).outbox) : Carries uri r r' := by
  refine carries_put (d.asked r.setup.categories r.nextSeq) hchecks fun e' he' => ?_
  rcases List.mem_append.mp he' with he' | he'
  · exact .inl ⟨c, hcheck, hfile, e', hnumbers e' he', rfl⟩
  · obtain rfl := List.mem_singleton.mp he'
    refine .inr ⟨Nat.lt_succ_self _, ?_⟩
    rw [houtbox, written_wrote, show r.nextSeq = r₀.nextSeq from congrArg (· + 1) hlast.symm]
    exact List.mem_append_right _ (List.mem_singleton_self _)

theorem carries_step (hstep : Step uris r r') : ∃ target, Carries target r r' := by
  cases hstep with
  | quiet hq => exact ⟨"", carries_of_checks _ hq.checks⟩
  | opened => exact ⟨"", carries_of_checks _ rfl⟩
  | edited => exact ⟨"", carries_of_checks _ rfl⟩
  | @enrolled u s hopen hnone =>
    exact ⟨u, carries_put (CheckState.new s.file) rfl (by simp [CheckState.new])⟩
  | @asked u c hcheck hup hwhy =>
    exact ⟨u, carries_asked r hcheck c rfl (fun _ => id) rfl rfl rfl⟩
  | @awaited u c waiter hcheck hout =>
    exact ⟨u, carries_put_of_subset hcheck { c with waiters := c.waiters ++ [⟨waiter, false⟩] } rfl
      (fun e' he' => ⟨e', he', rfl⟩) (Table.update_eq_put _ hcheck)⟩
  | @withdrew waiter =>
    exact ⟨"", carries_mapChecks (f := fun c =>
      { c with waiters := c.waiters.map (Waiter.withdraw waiter) }) _ (fun _ => ⟨rfl, rfl⟩) rfl⟩
  | staled =>
    exact ⟨"", carries_mapChecks (f := fun c => { c with fresh := false }) _
      (fun _ => ⟨rfl, rfl⟩) rfl⟩
  | @dropped u c hcheck =>
    exact ⟨u, carries_put_of_subset hcheck c.dropped rfl (fun e' he' => ⟨e', he', rfl⟩) rfl⟩
  | @closed u =>
    refine ⟨u, carries_of_same u fun v c' hc' => ?_⟩
    rw [check?_forget] at hc'
    split at hc'
    · simp at hc'
    · exact ⟨c', hc', rfl, fun e' he' => ⟨e', he', rfl⟩⟩
  | disconnected hup =>
    rw [disconnect_of_open hup]
    exact ⟨"", carries_mapChecks (f := CheckState.severed) _ (fun _ => ⟨rfl, rfl⟩) rfl⟩

/-- Marking a category leaves the numbers of the checks. -/
theorem seq_of_mark {category : String} {l l' : List InFlight} {e : InFlight}
    (hmark : markFirst category l = some (e, l')) : ∀ e' ∈ l', ∃ d ∈ l, d.seq = e'.seq := by
  obtain ⟨before, after, rfl, rfl, -, -⟩ := markFirst_some hmark
  intro e' he'
  rcases List.mem_append.mp he' with he' | he'
  · exact ⟨e', List.mem_append_left _ he', rfl⟩
  · rcases List.mem_cons.mp he' with rfl | he'
    · exact ⟨e, by simp, rfl⟩
    · exact ⟨e', by simp [he'], rfl⟩

/-- Settling leaves the checks in flight. -/
theorem carries_settle (r₀ : Relay) (hcheck : r.check? uri = some c) (hr₀ : r₀.checks = r.checks)
    (d : CheckState) (hfile : c.file = d.file)
    (hnumbers : ∀ e' ∈ d.inFlight, ∃ e ∈ c.inFlight, e.seq = e'.seq) :
    Carries uri r (r₀.settle uri d).1 := by
  obtain ⟨fresh, fx, hshape, -⟩ := settle_shape uri d r₀
  rw [hshape]
  exact carries_put_of_subset hcheck { d.ended with fresh } hfile hnumbers (by rw [hr₀])

theorem carries_heard {note : News} {failure : Option Failure} (hheard : Heard r note r' failure)
    (hsound : r.Sound) : ∃ target, Carries target r r' := by
  have hafter : ∀ (seq : Int) (c : CheckState), ∀ e' ∈ (c.after seq).inFlight,
      ∃ e ∈ c.inFlight, e.seq = e'.seq :=
    fun seq c e' he' => ⟨e', List.mem_of_mem_filter he', rfl⟩
  cases hheard with
  | credited => exact ⟨"", carries_of_checks _ rfl⟩
  | unawaited => exact ⟨"", carries_of_checks _ rfl⟩
  | @outdated file category items e entries u c habandoned huri hcheck hmark =>
    exact ⟨u, carries_put_of_subset hcheck { c with inFlight := entries } rfl (seq_of_mark hmark)
      rfl⟩
  | @counted file category items e entries u c habandoned huri hcheck hmark =>
    exact ⟨u, carries_put_of_subset hcheck (c.counted category items entries) rfl
      (seq_of_mark hmark) rfl⟩
  | @settled file category items e entries u c habandoned huri hcheck hmark =>
    exact ⟨u, carries_settle r hcheck rfl _ rfl (seq_of_mark hmark)⟩
  | retired => exact ⟨"", carries_of_checks _ rfl⟩
  | @overtaken seq u c e hfind =>
    exact ⟨u, carries_put_of_subset (hsound.find hfind).1 (c.after seq) rfl (hafter seq c) rfl⟩
  | @repeated seq u c e text hfind =>
    exact ⟨u, carries_asked ((r.completed seq u c).log .info text) (hsound.find hfind).1
      (c.again seq) rfl (fun _ he => List.mem_of_mem_filter he) rfl (Table.put_put _ _ _ _) rfl⟩
  | @severed seq u c e text cause hfind =>
    exact ⟨u, carries_put_of_subset (hsound.find hfind).1 (c.again seq) rfl (hafter seq c) rfl⟩
  | @exhausted seq u c e text hfind =>
    exact ⟨u, carries_settle ((r.retireAbandoned seq).log .warning text) (hsound.find hfind).1 rfl
      (c.exhausted seq) rfl (hafter seq c)⟩

/-! ## Runs -/

theorem traced_heard {note : News} {failure : Option Failure} (hheard : Heard r note r' failure)
    (hsound : r.Sound) (h : r.Traced) : r'.Traced :=
  h.carry hsound (numbersOn_heard hheard) (carries_heard hheard hsound)

/-- **Every move leaves the checks in flight traced.** -/
theorem traced_perform (m : Move) (hsound : r.Sound) (h : r.Traced) : (m.perform r).1.Traced := by
  cases hnews : m.news? with
  | none =>
    have hstep : ∀ r r', Step (openedUris [m]) r r' → r.Sound ∧ r.Traced → r'.Sound ∧ r'.Traced :=
      fun r r' hstep hr => ⟨sound_step hstep hr.1,
        hr.2.carry hr.1 (numbersOn_step hstep) (carries_step hstep)⟩
    exact (Steps.keep hstep
      (steps_perform hnews (fun _ => id) fun uri s hs => (hsound.filed uri s hs).1) ⟨hsound, h⟩).2
  | some note =>
    have hq := (perform_of_news hnews r).1
    have hheard := heard_hear note r
    exact (traced_heard hheard hsound h).carry (sound_heard hheard hsound) hq.numbers
      ⟨"", carries_of_checks _ hq.checks⟩

/-- **Checks in flight are traced after every run.** -/
theorem traced_run (setup : Setup) (moves : List Move) : (run moves (Relay.new setup)).Traced :=
  (run_induction (P := fun r => r.Sound ∧ r.Traced) ⟨sound_new setup, traced_new setup⟩
    (fun _ m h => ⟨sound_perform m h.1, traced_perform m h.1 h.2⟩) moves).2

/-- **The completion of a check finds its document.** -/
theorem Traced.find (h : r.Traced) (hsound : r.Sound) (hcheck : r.check? uri = some c)
    {e : InFlight} (he : e ∈ c.inFlight) : findInFlight? e.seq r.checks = some (uri, c, e) := by
  cases hfind : findInFlight? e.seq r.checks with
  | none =>
    have hmem := (Table.get?_eq_some_iff hsound.single).mp hcheck
    exact absurd rfl (findInFlight?_none hfind uri c hmem e he)
  | some found =>
    obtain ⟨u, d, f⟩ := found
    obtain ⟨hd, hf, hseq⟩ := hsound.find hfind
    have hseq : f.seq = e.seq := Int.ofNat_inj.mp hseq
    obtain rfl := h.apart u uri d c hd hcheck f hf e he hseq
    cases hcheck.symm.trans hd
    -- within one record numbers ascend, so none is there twice
    have hdistinct : (c.inFlight.map InFlight.seq).Nodup :=
      List.pairwise_map.mpr ((hsound.states u c hcheck).ascending.imp fun h => Nat.ne_of_lt h.1)
    obtain rfl := List.inj_on_of_nodup_map hdistinct hf he hseq
    rfl

end Relay

end LanguageRelay
