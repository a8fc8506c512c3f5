import LanguageRelay.Proofs.Checks.Numbers
import LanguageRelay.Proofs.Checks.Sound
/-!
# Checks written after a change

A change of a document puts an end to all that is awaited for it. So the
newest check that parts are awaited from was written after the last change
(`newer_edit`), and it stays so whatever happens next (`newer_perform`).
-/

namespace LanguageRelay

namespace Relay

variable {uris : List String} {r r' : Relay} {uri : String} {c c' : CheckState} {bound : Nat}

/-- **Parts are awaited from later checks alone**: those numbered after
`bound`. -/
structure Newer (bound : Nat) (uri : String) (r : Relay) : Prop where
  last : bound ≤ r.link.last
  newest : ∀ c, r.check? uri = some c → c.outstanding ≠ [] →
    ∀ e, c.inFlight.getLast? = some e → bound < e.seq

/-- As long as records that await parts keep their newest checks, all stay
later. -/
theorem Newer.keep (h : Newer bound uri r) (hlast : r.link.last ≤ r'.link.last)
    (hrecords : ∀ c', r'.check? uri = some c' → c'.outstanding ≠ [] →
      ∀ e', c'.inFlight.getLast? = some e' → bound < e'.seq ∨
        ∃ c e, r.check? uri = some c ∧ c.outstanding ≠ [] ∧ c.inFlight.getLast? = some e ∧
          e.seq = e'.seq) : Newer bound uri r' where
  last := Nat.le_trans h.last hlast
  newest c' hc' hout e' he' := by
    rcases hrecords c' hc' hout e' he' with hlt | ⟨c, e, hcheck, hawaited, he, hseq⟩
    · exact hlt
    · exact hseq ▸ h.newest c hcheck hawaited e he

/-- Where all records are the same, so are their newest checks. -/
theorem Newer.of_checks (h : Newer bound uri r) (hlast : r.link.last ≤ r'.link.last)
    (hchecks : r'.checks = r.checks) : Newer bound uri r' :=
  h.keep hlast fun c' hc' hout e' he' =>
    .inr ⟨c', e', by rwa [check?, ← hchecks], hout, he', rfl⟩

/-- A record may be set if it awaits nothing, or its newest check is later or
the one it was. -/
theorem Newer.put (h : Newer bound uri r) {u : String} (c' : CheckState)
    (hlast : r.link.last ≤ r'.link.last) (hchecks : r'.checks = Table.put u c' r.checks)
    (hrecord : c'.outstanding ≠ [] → ∀ e', c'.inFlight.getLast? = some e' → bound < e'.seq ∨
      ∃ c e, r.check? u = some c ∧ c.outstanding ≠ [] ∧ c.inFlight.getLast? = some e ∧
        e.seq = e'.seq) : Newer bound uri r' := by
  refine h.keep hlast fun d hd hout e' he' => ?_
  rcases check?_put_cases hchecks hd with ⟨rfl, rfl⟩ | ⟨-, hd⟩
  · exact hrecord hout e' he'
  · exact .inr ⟨d, e', hd, hout, he', rfl⟩

/-- All records may change, if they keep their newest checks. -/
theorem Newer.mapChecks (h : Newer bound uri r) {f : CheckState → CheckState}
    (hsame : ∀ c, (f c).inFlight = c.inFlight ∧ (f c).outstanding = c.outstanding) :
    Newer bound uri (r.mapChecks f) := by
  refine h.keep (Nat.le_refl _) fun d hd hout e' he' => ?_
  rw [check?_mapChecks] at hd
  obtain ⟨c, hc, rfl⟩ := Option.map_eq_some_iff.mp hd
  obtain ⟨hinFlight, houtstanding⟩ := hsame c
  exact .inr ⟨c, e', hc, by rwa [← houtstanding], by rwa [← hinFlight], rfl⟩

/-- A check that is written is later than all before. -/
theorem Newer.ask (h : Newer bound uri r) {u : String} (c : CheckState) (file : String) :
    Newer bound uri ((r.wrote file).setCheck u (c.asked r.setup.categories r.nextSeq)) := by
  refine h.put (c.asked r.setup.categories r.nextSeq) (Nat.le_succ _) rfl fun _ e' he' => .inl ?_
  obtain rfl : ⟨r.nextSeq, c.generation + 1, []⟩ = e' := by simpa [CheckState.asked] using he'
  exact Nat.lt_succ_of_le h.last

/-! ## What keeps the newest checks -/

theorem newer_step (hstep : Step uris r r') (h : Newer bound uri r) : Newer bound uri r' := by
  cases hstep with
  | quiet hq => exact h.of_checks hq.last hq.checks
  | opened => exact h.of_checks (Nat.le_refl _) rfl
  | edited => exact h.of_checks (Nat.le_refl _) rfl
  | @enrolled u s hopen hnone =>
    exact h.put (CheckState.new s.file) (Nat.le_refl _) rfl fun hout => absurd rfl hout
  | asked => exact h.ask _ _
  | @awaited u c waiter hcheck =>
    exact h.put { c with waiters := c.waiters ++ [⟨waiter, false⟩] } (Nat.le_refl _)
      (Table.update_eq_put _ hcheck) fun hout e' he' => .inr ⟨c, e', hcheck, hout, he', rfl⟩
  | withdrew => exact h.mapChecks fun _ => ⟨rfl, rfl⟩
  | staled => exact h.mapChecks fun _ => ⟨rfl, rfl⟩
  | @dropped u c => exact h.put c.dropped (Nat.le_refl _) rfl fun hout => absurd rfl hout
  | @closed u =>
    refine h.keep (Nat.le_of_eq (by rw [link_forget])) fun d hd hout e' he' => ?_
    rw [check?_forget] at hd
    split at hd
    · simp at hd
    · exact .inr ⟨d, e', hd, hout, he', rfl⟩
  | disconnected hup =>
    rw [disconnect_of_open hup]
    refine ⟨h.last, fun d hd hout => ?_⟩
    obtain ⟨c, -, rfl⟩ := Option.map_eq_some_iff.mp ((check?_mapChecks _ r uri).symm.trans hd)
    exact absurd rfl hout

/-- Marking a category leaves the number of the newest check. -/
theorem seq_newest_of_mark {category : String} {l l' : List InFlight} {e e' : InFlight}
    (hmark : markFirst category l = some (e, l')) (he' : l'.getLast? = some e') :
    ∃ d, l.getLast? = some d ∧ d.seq = e'.seq := by
  obtain ⟨before, after, rfl, rfl, -, -⟩ := markFirst_some hmark
  cases after with
  | nil =>
    obtain rfl : { e with reported := e.reported ++ [category] } = e' := by simpa using he'
    exact ⟨e, by simp, rfl⟩
  | cons d ds => exact ⟨e', by simpa using he', rfl⟩

theorem newer_heard {note : News} {failure : Option Failure} (hheard : Heard r note r' failure)
    (hsound : r.Sound) (h : Newer bound uri r) : Newer bound uri r' := by
  cases hheard with
  | credited => exact h.of_checks (Nat.le_refl _) rfl
  | unawaited => exact h
  | @outdated file category items e entries u c habandoned huri hcheck hmark hold =>
    refine h.put { c with inFlight := entries } (Nat.le_refl _) rfl fun hout e' he' => .inr ?_
    obtain ⟨d, hd, hseq⟩ := seq_newest_of_mark hmark he'
    exact ⟨c, d, hcheck, hout, hd, hseq⟩
  | @counted file category items e entries u c habandoned huri hcheck hmark hcurrent hawaited =>
    refine h.put (c.counted category items entries) (Nat.le_refl _) rfl fun _ e' he' => .inr ?_
    obtain ⟨d, hd, hseq⟩ := seq_newest_of_mark hmark he'
    exact ⟨c, d, hcheck, List.ne_nil_of_mem hawaited, hd, hseq⟩
  | @settled file category items e entries u c habandoned huri hcheck hmark hcurrent hawaited
      hleft =>
    obtain ⟨fresh, fx, hshape, -⟩ := settle_shape u (c.counted category items entries) r
    rw [hshape]
    exact h.put { (c.counted category items entries).ended with fresh } (Nat.le_refl _) rfl
      fun hout => absurd hleft hout
  | retired => exact h.of_checks (Nat.le_refl _) rfl
  | @overtaken seq u c e hfind hold =>
    obtain ⟨hcheck, he, rfl⟩ := hsound.find hfind
    refine h.put (c.after e.seq) (Nat.le_refl _) rfl fun hout e' he' => .inr ?_
    obtain ⟨newest, hnewest, hafter, -⟩ := (hsound.states u c hcheck).newest_after he hold hout
    cases hafter.symm.trans he'
    exact ⟨c, e', hcheck, hout, hnewest, rfl⟩
  | @repeated seq u c e text =>
    refine h.put ((c.again seq).asked r.setup.categories r.nextSeq) (Nat.le_succ _)
      (Table.put_put _ _ _ _) fun _ e' he' => .inl ?_
    obtain rfl : ⟨r.nextSeq, c.generation + 1, []⟩ = e' := by
      simpa [CheckState.asked, CheckState.again, CheckState.after] using he'
    exact Nat.lt_succ_of_le h.last
  | @severed seq u c e text cause hfind hcurrent hawaited hpatient hrefused =>
    simp [hsound.taken (hsound.find hfind).1 hawaited] at hrefused
  | @exhausted seq u c e text =>
    obtain ⟨fresh, fx, hshape, -⟩ := settle_shape u (c.exhausted seq)
      ((r.retireAbandoned seq).log .warning text)
    rw [hshape]
    exact h.put { (c.exhausted seq).ended with fresh } (Nat.le_refl _) rfl
      fun hout => absurd rfl hout

/-- **Whatever happens, parts are awaited from later checks alone.** -/
theorem newer_perform (m : Move) (hsound : r.Sound) (h : Newer bound uri r) :
    Newer bound uri (m.perform r).1 := by
  cases hnews : m.news? with
  | none =>
    exact Steps.keep (fun _ _ => newer_step)
      (steps_perform hnews (fun _ => id) fun u s hs => (hsound.filed u s hs).1) h
  | some note =>
    have hq := (perform_of_news hnews r).1
    exact (newer_heard (heard_hear note r) hsound h).of_checks hq.last hq.checks

/-! ## A change -/

/-- Where nothing is awaited, nothing is awaited from older checks. -/
theorem newer_of_nothing_awaited (hlast : bound ≤ r.link.last)
    (h : ∀ c, r.check? uri = some c → c.outstanding = []) : Newer bound uri r :=
  ⟨hlast, fun c hc hout => absurd (h c hc) hout⟩

/-- Telling a document's checks of a change gives up what is awaited, or asks
again. -/
theorem newer_invalidate (hsound : r.Sound) (hlast : bound ≤ r.link.last) :
    Newer bound uri (r.invalidate uri).1 := by
  have hstale : r.stale.Sound := sound_step (.staled : Step [] r r.stale) hsound
  have hbound : bound ≤ r.stale.link.last := hlast
  unfold invalidate
  simp only []
  generalize r.stale = r₁ at hstale hbound ⊢
  cases hcheck : r₁.check? uri with
  | none => exact newer_of_nothing_awaited hbound (by simp [hcheck])
  | some c =>
    simp only []
    split
    · rename_i hout
      refine newer_of_nothing_awaited hbound fun d hd => ?_
      cases hcheck.symm.trans hd
      exact List.isEmpty_iff.mp hout
    · rename_i hout
      split
      · refine newer_of_nothing_awaited hbound fun d hd => ?_
        cases (if_pos rfl).symm.trans ((check?_setCheck _ _ _ _).symm.trans hd)
        rfl
      · cases htaken : r₁.link.refusal? with
        | none =>
          rw [startGeneration_of_taken htaken]
          refine ⟨Nat.le_succ_of_le hbound, fun d hd _ e he => ?_⟩
          cases (if_pos rfl).symm.trans ((check?_setCheck _ _ _ _).symm.trans hd)
          obtain rfl : ⟨r₁.nextSeq, c.generation + 1, []⟩ = e := by
            simpa [CheckState.asked] using he
          exact Nat.lt_succ_of_le hbound
        | some cause =>
          have hawaited : c.outstanding ≠ [] := fun hnone => hout (List.isEmpty_iff.mpr hnone)
          simp [hstale.taken hcheck hawaited] at htaken

/-- **The checks of a document are cut off** between two states: parts are
awaited from later checks alone, written after all that was written before,
and after the texts told since. -/
def CutOff (uri : String) (r r' : Relay) : Prop :=
  ∃ bound, Newer bound uri r' ∧ r.link.last ≤ bound ∧
    ∀ command, .sent command ∈ r'.outbox → (Effect.sent command).TellsText → command.seq ≤ bound

theorem steps_numbersOn (hsteps : Steps uris r r') : NumbersOn r r' :=
  Steps.keep (P := NumbersOn r) (fun _ _ hstep h => h.trans (numbersOn_step hstep)) hsteps (.refl r)

/-- Where nothing is awaited, all is cut off. -/
theorem cutOff_of_nothing_awaited (hnumbered : r.Numbered) (hsteps : Steps uris r r')
    (hout : ∀ c, r'.check? uri = some c → c.outstanding = []) : CutOff uri r r' :=
  ⟨r'.link.last, newer_of_nothing_awaited (Nat.le_refl _) hout, (steps_numbersOn hsteps).last,
    fun _ hsent _ => (hnumbered.on (steps_numbersOn hsteps)).le hsent⟩

/-- Telling the checks of a change cuts them off, and tells no text. -/
theorem cutOff_invalidate (hsound : r.Sound) (hnumbered : r.Numbered) (hsteps : Steps uris r r') :
    CutOff uri r (r'.invalidate uri).1 := by
  have hsound' : r'.Sound := Steps.keep (fun _ _ => sound_step) hsteps hsound
  have hon := steps_numbersOn hsteps
  refine ⟨r'.link.last, newer_invalidate hsound' (Nat.le_refl _), hon.last, ?_⟩
  intro command hsent htells
  obtain ⟨fx, hfx, hnone⟩ := (leaves_invalidate uri r').adds
  rw [hfx] at hsent
  rcases List.mem_append.mp hsent with hsent | hsent
  · exact (hnumbered.on hon).le hsent
  · exact absurd htells (hnone _ hsent)

/-- **An edit of a document cuts its checks off.** -/
theorem cutOff_edit {m : Move} (hm : m.edited? = some uri) (hsound : r.Sound)
    (hnumbered : r.Numbered) : CutOff uri r (m.perform r).1 := by
  have hclosed : r.session? uri = none → ∀ c, r.check? uri = some c → c.outstanding = [] := by
    intro hnone c hcheck
    obtain ⟨s, hs, -⟩ := hsound.opened uri c hcheck
    simp [hnone] at hs
  cases m with
  | openDocument uri' languageId version content =>
    cases hm
    change CutOff uri r (r.openDocument uri languageId version content).1
    obtain ⟨r₁, hsteps, hamends, ⟨heq, -⟩ | ⟨heq, hwhy⟩⟩ :=
      openDocument_split (List.mem_singleton_self uri) languageId version content r
    · rw [heq]
      exact cutOff_invalidate hsound hnumbered hsteps
    · rw [heq]
      refine cutOff_of_nothing_awaited hnumbered hsteps fun c hcheck => ?_
      rw [check?, hamends.checks] at hcheck
      -- where checks are not told of the change, none are awaited
      rcases hwhy with hfile | hover | hnone
      · obtain ⟨s, hs, -⟩ := hsound.opened uri c hcheck
        simp [(hsound.filed uri s hs).2] at hfile
      · by_contra hout
        exact hover (hsound.taken hcheck hout)
      · exact hclosed hnone c hcheck
  | changeDocument uri' version changes =>
    cases hm
    change CutOff uri r (r.changeDocument uri version changes).1
    cases hopen : r.session? uri with
    | none =>
      rw [changeDocument_of_not_open hopen]
      exact cutOff_of_nothing_awaited hnumbered (.refl : Steps [] r r) (hclosed hopen)
    | some s =>
      obtain ⟨r₁, hsteps, -, heq⟩ : ∃ r₁, Steps [] r r₁ ∧ Amends r r₁ ∧
          (r.changeDocument uri version changes).1 = (r₁.invalidate uri).1 :=
        changeDocument_split hopen (hsound.filed uri s hopen).1 version changes
      rw [heq]
      exact cutOff_invalidate hsound hnumbered hsteps
  | closeDocument uri' =>
    cases hm
    change CutOff uri r (r.closeDocument uri).1
    have hsteps : Steps [] r (r.closeDocument uri).1 := steps_closeDocument uri r
    refine cutOff_of_nothing_awaited hnumbered hsteps fun c hcheck => ?_
    cases hopen : r.session? uri with
    | none => exact hclosed hopen c (by rwa [closeDocument_of_not_open hopen] at hcheck)
    | some s => simp [(quiet_closeDocument hopen).check?, check?_forget] at hcheck
  | _ => simp [Move.edited?] at hm

end Relay

end LanguageRelay
