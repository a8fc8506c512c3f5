import LanguageRelay.Proofs.Checks.Coalescing
/-!
# Partial diagnostics

The analysis server may complete a check before it has reported every category.
Such a check is *cut short*, and asked for again while retries are left; then
what there is gets published. `cutShort` lists the checks of a document that are
cut short along a run.

A document whose diagnostics are published without some category has had enough
checks cut short, all of them written since any given edit, **except for the
retries its record had used up by then** (`partial_after_retries`). An edit does
not give them back: what was asked for again on behalf of a text that is gone is
not asked for again on behalf of the text that replaced it
(`partial_after_one_check`).
-/

namespace LanguageRelay

namespace Relay

variable {uris : List String} {r r' : Relay} {uri : String} {c : CheckState} {e : InFlight}
variable {parts : List (String × List Json)} {n bound : Nat} {setup : Setup} {moves : List Move}
variable {m : Move} {seq : Int}

/-! ## Checks that are cut short -/

/-- The check that news tell the completion of. -/
def News.completed? : News → Option Int
  | completed seq => some seq
  | part .. => none

/-- The check whose completion a move takes in. -/
def Move.completed? (m : Move) : Option Int := m.news?.bind News.completed?

/-- The number of the check that parts of a document are awaited from. -/
def pursued? (uri : String) (r : Relay) : Option Int :=
  (r.check? uri).bind fun c =>
    if c.outstanding = [] then none else c.inFlight.getLast?.map fun e => (e.seq : Int)

/-- The check of a document that a move cuts short: it completes while parts are
awaited from it. -/
def cutBy? (uri : String) (m : Move) (r : Relay) : Option Int :=
  (pursued? uri r).filter fun seq => m.completed? = some seq

/-- **The checks of a document that are cut short** along moves, in order. -/
def cutShort (uri : String) : List Move → Relay → List Int
  | [], _ => []
  | m :: rest, r => (cutBy? uri m r).toList ++ cutShort uri rest (m.perform r).1

theorem completed?_eq_some : m.completed? = some seq ↔ m.news? = some (.completed seq) := by
  unfold Move.completed?
  cases m.news? with
  | none => simp
  | some note => cases note <;> simp [News.completed?]

theorem cutBy?_eq_some :
    cutBy? uri m r = some seq ↔ pursued? uri r = some seq ∧ m.completed? = some seq := by
  simp [cutBy?, Option.filter_eq_some_iff]

/-- The check pursued for a document is the one parts are awaited from. -/
theorem Pursued.pursued? (h : Pursued uri c e r) : Relay.pursued? uri r = some (e.seq : Int) := by
  simp [Relay.pursued?, h.check, h.awaited, h.newest]

/-- And the one parts are awaited from is pursued. -/
theorem pursued_of_pursued? (hsound : r.Sound) (htraced : r.Traced)
    (h : pursued? uri r = some seq) : ∃ c e, Pursued uri c e r ∧ (e.seq : Int) = seq := by
  obtain ⟨c, hcheck, hnewest⟩ := Option.bind_eq_some_iff.mp h
  split at hnewest
  · cases hnewest
  · rename_i hout
    obtain ⟨e, he⟩ := exists_pursued hsound htraced hcheck hout
    exact ⟨c, e, he, by simpa [he.newest] using hnewest⟩

theorem cutShort_snoc (uri : String) (moves : List Move) (m : Move) (r : Relay) :
    cutShort uri (moves ++ [m]) r =
      cutShort uri moves r ++ (cutBy? uri m (run moves r)).toList := by
  induction moves generalizing r with
  | nil => simp [cutShort]
  | cons m' rest ih =>
    rw [List.cons_append, cutShort, ih, cutShort, List.append_assoc]
    rfl

/-- A check that is cut short is cut short by one of the moves. -/
theorem exists_of_mem_cutShort (h : seq ∈ cutShort uri moves r) :
    ∃ first m rest, moves = first ++ m :: rest ∧ cutBy? uri m (run first r) = some seq := by
  induction moves generalizing r with
  | nil => simp [cutShort] at h
  | cons m' rest ih =>
    rcases List.mem_append.mp h with h | h
    · exact ⟨[], m', rest, rfl, Option.mem_toList.mp h⟩
    · obtain ⟨first, m, rest', rfl, hcut⟩ := ih h
      exact ⟨m' :: first, m, rest', rfl, hcut⟩

/-! ## They are all different -/

/-- Where parts are awaited from later checks alone, only these are cut
short. -/
theorem Newer.lt_of_mem_cutShort (h : Newer bound uri r) (hsound : r.Sound) (htraced : r.Traced)
    (hmem : seq ∈ cutShort uri moves r) : (bound : Int) < seq := by
  induction moves generalizing r with
  | nil => simp [cutShort] at hmem
  | cons m rest ih =>
    rcases List.mem_append.mp hmem with hmem | hmem
    · obtain ⟨c, e, hpursued, rfl⟩ := pursued_of_pursued? hsound htraced
        (cutBy?_eq_some.mp (Option.mem_toList.mp hmem)).1
      exact Int.ofNat_lt.mpr (h.newest c hpursued.check hpursued.awaited e hpursued.newest)
    · exact ih (newer_perform m hsound h) (sound_perform m hsound)
        (traced_perform m hsound htraced) hmem

/-- Once a check was cut short, parts are awaited from later checks alone. -/
theorem newer_of_cut (hsound : r.Sound) (htraced : r.Traced) (hpursued : Pursued uri c e r)
    (hcut : m.completed? = some (e.seq : Int)) : Newer e.seq uri (m.perform r).1 := by
  have hq := (perform_of_news (completed?_eq_some.mp hcut) r).1
  have hfound := htraced.find hsound hpursued.check (List.mem_of_getLast? hpursued.newest)
  have hlast : e.seq ≤ r.link.last :=
    ((hsound.states uri c hpursued.check).bounded e (List.mem_of_getLast? hpursued.newest)).1
  have hheard := heard_hear (.completed e.seq) r
  refine Newer.of_checks ?_ hq.last hq.checks
  generalize r.hear (.completed e.seq) = told at hheard ⊢
  obtain ⟨r', failure⟩ := told
  cases hheard with
  | retired hfind => simp [hfound] at hfind
  | overtaken hfind hold =>
    cases hfound.symm.trans hfind
    exact absurd hpursued.current (hold.resolve_right hpursued.awaited)
  | @repeated _ u d f text hfind =>
    cases hfound.symm.trans hfind
    refine ⟨Nat.le_succ_of_le hlast, fun d hd _ f hf => ?_⟩
    cases (if_pos rfl).symm.trans ((check?_setCheck _ _ _ _).symm.trans hd)
    obtain rfl : ⟨r.nextSeq, c.generation + 1, []⟩ = f := by
      simpa [CheckState.asked, CheckState.again, CheckState.after] using hf
    exact Nat.lt_succ_of_le hlast
  | severed hfind hcurrent hawaited hpatient hrefused =>
    simp [hsound.taken hpursued.check hpursued.awaited] at hrefused
  | @exhausted _ u d f text hfind =>
    cases hfound.symm.trans hfind
    obtain ⟨fresh, fx, hshape, -⟩ := settle_shape uri (c.exhausted e.seq)
      ((r.retireAbandoned e.seq).log .warning text)
    rw [hshape]
    refine newer_of_nothing_awaited hlast fun d hd => ?_
    cases (if_pos rfl).symm.trans ((Table.get?_put _ _ _ _).symm.trans hd)
    rfl

/-- **Checks are cut short in the order they were written**, each once. -/
theorem cutShort_ascending (hsound : r.Sound) (htraced : r.Traced) (uri : String)
    (moves : List Move) : (cutShort uri moves r).Pairwise (· < ·) := by
  induction moves generalizing r with
  | nil => exact .nil
  | cons m rest ih =>
    have hsound' := sound_perform m hsound
    have htraced' := traced_perform m hsound htraced
    refine List.pairwise_append.mpr ⟨?_, ih hsound' htraced', fun seq hseq later hlater => ?_⟩
    · cases cutBy? uri m r <;> simp
    · obtain ⟨hpursued?, hcut⟩ := cutBy?_eq_some.mp (Option.mem_toList.mp hseq)
      obtain ⟨c, e, hpursued, rfl⟩ := pursued_of_pursued? hsound htraced hpursued?
      exact (newer_of_cut hsound htraced hpursued hcut).lt_of_mem_cutShort hsound' htraced' hlater

/-! ## Retries -/

/-- The retries a document's record has used up. -/
def retriesOf (uri : String) (r : Relay) : Nat := (r.check? uri).elim 0 CheckState.retries

theorem retriesOf_of_checks (h : r'.check? uri = r.check? uri) :
    retriesOf uri r' = retriesOf uri r := by
  rw [retriesOf, h, retriesOf]

/-- A record may be set if it has used up no more retries than there were. -/
theorem retriesOf_put {u : String} (d : CheckState) (extra : Nat)
    (hchecks : r'.checks = Table.put u d r.checks)
    (h : u = uri → d.retries ≤ retriesOf uri r + extra) :
    retriesOf uri r' ≤ retriesOf uri r + extra := by
  by_cases hu : u = uri
  · have hrecord : r'.check? uri = some d := (check?_put hchecks uri).trans (if_pos hu)
    rw [retriesOf, hrecord]
    exact h hu
  · have hrecord : r'.check? uri = r.check? uri := (check?_put hchecks uri).trans (if_neg hu)
    rw [retriesOf_of_checks hrecord]
    exact Nat.le_add_right _ _

theorem retriesOf_eq (hcheck : r.check? uri = some c) : retriesOf uri r = c.retries := by
  rw [retriesOf, hcheck]
  rfl

/-- All records may change, if they use up no retries. -/
theorem retriesOf_mapChecks {f : CheckState → CheckState} (hf : ∀ c, (f c).retries = c.retries)
    (r : Relay) : retriesOf uri (r.mapChecks f) = retriesOf uri r := by
  rw [retriesOf, check?_mapChecks, retriesOf]
  cases r.check? uri with
  | none => rfl
  | some c => exact hf c

/-- Of its own accord a relay uses up no retry. -/
theorem retries_step (hstep : Step uris r r') : retriesOf uri r' ≤ retriesOf uri r := by
  -- setting a record to one with as many retries uses up none
  have hput : ∀ u c d, r.check? u = some c → d.retries = c.retries →
      r'.checks = Table.put u d r.checks → retriesOf uri r' ≤ retriesOf uri r := by
    intro u c d hcheck hretries hchecks
    refine retriesOf_put d 0 hchecks ?_
    rintro rfl
    rw [retriesOf_eq hcheck, hretries]
    exact Nat.le_refl _
  cases hstep with
  | quiet hq => exact Nat.le_of_eq (retriesOf_of_checks (hq.check? uri))
  | opened => exact Nat.le_refl _
  | edited => exact Nat.le_refl _
  | @enrolled u s hopen hnone =>
    exact retriesOf_put (CheckState.new s.file) 0 rfl fun _ => Nat.zero_le _
  | @asked u c hcheck => exact hput u c (c.asked _ _) hcheck rfl rfl
  | @awaited u c waiter hcheck =>
    exact hput u c { c with waiters := c.waiters ++ [⟨waiter, false⟩] } hcheck rfl
      (Table.update_eq_put _ hcheck)
  | @withdrew waiter =>
    exact Nat.le_of_eq (retriesOf_mapChecks
      (f := fun c => { c with waiters := c.waiters.map (Waiter.withdraw waiter) }) (fun _ => rfl) r)
  | staled =>
    exact Nat.le_of_eq
      (retriesOf_mapChecks (f := fun c => { c with fresh := false }) (fun _ => rfl) r)
  | @dropped u c hcheck => exact hput u c c.dropped hcheck rfl rfl
  | @closed u =>
    rw [retriesOf, check?_forget]
    split
    · exact Nat.zero_le _
    · exact Nat.le_refl _
  | @disconnected cause hup =>
    have hrecord := congrArg (fun r' => r'.check? uri) (disconnect_of_open hup cause)
    rw [retriesOf_of_checks (r := r.mapChecks CheckState.severed) hrecord]
    exact Nat.le_of_eq (retriesOf_mapChecks (f := CheckState.severed) (fun _ => rfl) r)

/-- The check that completes while it is current and parts are awaited is the one
they are awaited from. -/
theorem pursued?_of_find (hsound : r.Sound)
    (hfind : findInFlight? seq r.checks = some (uri, c, e)) (hcurrent : e.generation = c.generation)
    (hawaited : c.outstanding ≠ []) : pursued? uri r = some seq := by
  obtain ⟨hcheck, he, hseq⟩ := hsound.find hfind
  have hnewest := (hsound.states uri c hcheck).newest_of_current he hcurrent hawaited
  simp [pursued?, hcheck, hawaited, hnewest, hseq]

/-- **News use up a retry only where a check is cut short.** -/
theorem retries_heard {note : News} {failure : Option Failure} (hheard : Heard r note r' failure)
    (hsound : r.Sound) :
    retriesOf uri r' ≤ retriesOf uri r +
      ((pursued? uri r).filter fun seq => note.completed? = some seq).toList.length := by
  cases hheard with
  | credited => exact Nat.le_add_right _ _
  | unawaited => exact Nat.le_add_right _ _
  | retired => exact Nat.le_add_right _ _
  | @outdated file category items e entries u c habandoned huri hcheck =>
    refine retriesOf_put { c with inFlight := entries } _ rfl ?_
    rintro rfl
    exact Nat.le_add_right_of_le (Nat.le_of_eq (retriesOf_eq hcheck).symm)
  | @counted file category items e entries u c habandoned huri hcheck =>
    refine retriesOf_put (c.counted category items entries) _ rfl ?_
    rintro rfl
    exact Nat.le_add_right_of_le (Nat.le_of_eq (retriesOf_eq hcheck).symm)
  | @settled file category items e entries u c =>
    obtain ⟨fresh, fx, hshape, -⟩ := settle_shape u (c.counted category items entries) r
    rw [hshape]
    exact retriesOf_put { (c.counted category items entries).ended with fresh } _ rfl
      fun _ => Nat.zero_le _
  | @overtaken seq u c e hfind =>
    refine retriesOf_put (c.after seq) _ rfl ?_
    rintro rfl
    exact Nat.le_add_right_of_le (Nat.le_of_eq (retriesOf_eq (hsound.find hfind).1).symm)
  | @repeated seq u c e text hfind hcurrent hawaited =>
    refine retriesOf_put ((c.again seq).asked r.setup.categories r.nextSeq) _
      (Table.put_put _ _ _ _) ?_
    rintro rfl
    have hpursued := pursued?_of_find hsound hfind hcurrent hawaited
    rw [retriesOf_eq (hsound.find hfind).1, hpursued, Option.filter_some,
      if_pos (by simp [News.completed?])]
    exact Nat.le_refl _
  | @severed seq u c e text cause hfind hcurrent hawaited hpatient hrefused =>
    simp [hsound.taken (hsound.find hfind).1 hawaited] at hrefused
  | @exhausted seq u c e text =>
    obtain ⟨fresh, fx, hshape, -⟩ :=
      settle_shape u (c.exhausted seq) ((r.retireAbandoned seq).log .warning text)
    rw [hshape]
    exact retriesOf_put { (c.exhausted seq).ended with fresh } _ rfl fun _ => Nat.zero_le _

theorem retries_perform (uri : String) (m : Move) (hsound : r.Sound) :
    retriesOf uri (m.perform r).1 ≤ retriesOf uri r + (cutBy? uri m r).toList.length := by
  cases hnews : m.news? with
  | none =>
    refine Nat.le_add_right_of_le ?_
    exact Steps.keep (P := fun r' => retriesOf uri r' ≤ retriesOf uri r)
      (fun _ _ hstep h => Nat.le_trans (retries_step hstep) h)
      (steps_perform hnews (fun _ => id) fun u s hs => (hsound.filed u s hs).1) (Nat.le_refl _)
  | some note =>
    have hcut : m.completed? = note.completed? := by simp [Move.completed?, hnews]
    rw [retriesOf_of_checks ((perform_of_news hnews r).1.check? uri), cutBy?, hcut]
    exact retries_heard (heard_hear note r) hsound

/-- Along a run too. -/
theorem retries_run (uri : String) (moves : List Move) (hsound : r.Sound) :
    retriesOf uri (run moves r) ≤ retriesOf uri r + (cutShort uri moves r).length := by
  induction moves generalizing r with
  | nil => exact Nat.le_add_right _ _
  | cons m rest ih =>
    have hone := retries_perform uri m hsound
    have hrest := ih (sound_perform m hsound)
    rw [cutShort, List.length_append]
    change retriesOf uri (run rest (m.perform r).1) ≤ _
    omega

/-! ## What is told of a check that falls short -/

/-- While parts are awaited, some category has not been reported. -/
theorem exists_unreported {categories : List String} {last : Nat} (h : c.Sound categories last)
    (hout : c.outstanding ≠ []) : ∃ k ∈ categories, Table.get? k c.merged = none := by
  obtain ⟨k, hk⟩ := List.exists_mem_of_ne_nil _ hout
  have hperm := h.parts hout
  have hnodup := hperm.nodup_iff.mpr (nodup_eraseDups categories)
  have hmem : k ∈ categories.eraseDups := hperm.subset (List.mem_append_left _ hk)
  refine ⟨k, by simpa using hmem, ?_⟩
  rw [← Option.not_isSome_iff_eq_none, ← Table.mem_keys_iff]
  exact fun hmerged => (List.nodup_append.mp hnodup).2.2 k hk k hmerged rfl

/-- A check at the front of the queue that parts are awaited from is about the file
of its document. -/
theorem Queued.file_eq (h : Queued uris n parts r) (hpursued : Pursued uri c e r) {file : String}
    {rest : List (Int × String)}
    (hdue : (written r.outbox).drop n = ((e.seq : Int), file) :: rest) : c.file = file :=
  h.aligned.file_eq
    (h.aligned.mem hpursued.up
      (mem_running h.linked hpursued.check (List.mem_of_getLast? hpursued.newest)))
    (by rw [hdue]; exact List.mem_cons_self)

/-- **A check falls short** with a move made after others: it is the oldest to be
completed, the move completes it, and it has not reported every category set
up. -/
structure FallsShort (setup : Setup) (moves : List Move) (m : Move) (seq : Int) (file : String) :
    Prop where
  completes : m.completed? = some seq
  oldest : (written (run moves (Relay.new setup)).outbox)[completions (heard moves)]? =
    some (seq, file)
  unreported : ∃ k ∈ setup.categories,
    k ∉ Table.keys (reports (completions (heard moves)) (heard moves))

/-- **A check that is cut short falls short**, and is about its document. -/
theorem fallsShort_of_cutBy? (hfiles : ApartAlong setup moves)
    (horder : InOrder setup (moves ++ [m]))
    (hcut : cutBy? uri m (run moves (Relay.new setup)) = some seq) :
    ∃ file, Uri.fileOf? uri = some file ∧ FallsShort setup moves m seq file := by
  have hsound := sound_run setup moves
  have hqueued := queued_along hfiles horder.of_snoc.1
  obtain ⟨hpursued?, hcompletes⟩ := cutBy?_eq_some.mp hcut
  obtain ⟨c, e, hpursued, rfl⟩ := pursued_of_pursued? hsound (traced_run setup moves) hpursued?
  obtain ⟨file, hplace⟩ := horder.of_snoc.2 _ (completed?_eq_some.mp hcompletes)
  obtain ⟨rest, hdue⟩ := exists_drop_of_getElem? hplace
  obtain ⟨s, hs, hfile⟩ := hsound.opened uri c hpursued.check
  have hsame : s.file = file := hfile.trans (hqueued.file_eq hpursued hdue)
  obtain ⟨k, hk, hnone⟩ :=
    exists_unreported (hsound.states uri c hpursued.check) hpursued.awaited
  refine ⟨file, by rw [(hsound.filed uri s hs).2, hsame], hcompletes, hplace, k,
    setup_run setup moves ▸ hk, ?_⟩
  rw [hqueued.told hdue hpursued.check hpursued.awaited hpursued.newest rfl hk] at hnone
  rw [Table.mem_keys_iff, hnone]
  simp

/-! ## What is published without a category -/

/-- **Diagnostics are published for one of two reasons**: the last part has come, or
a check was cut short when no retries were left. -/
theorem settled_or_cut {note : News} {failure : Option Failure} (hheard : Heard r note r' failure)
    (hsound : r.Sound) (hpublished : ¬ Adds (fun x => ¬ PublishesOf uri x) r r') :
    (∃ file category items e entries c, note = .part file category items ∧
      markFirst category ((Table.get? file r.abandoned).getD []) = none ∧
      Table.get? file r.uriByFile = some uri ∧ r.check? uri = some c ∧
      markFirst category c.inFlight = some (e, entries) ∧ e.generation = c.generation ∧
      category ∈ c.outstanding ∧ (c.counted category items entries).outstanding = []) ∨
    ∃ seq, note = .completed seq ∧ pursued? uri r = some seq ∧ maxRetries ≤ retriesOf uri r := by
  cases hheard with
  | @settled file category items e entries u c habandoned huri hcheck hmark hcurrent hawaited
      hleft =>
    by_cases hu : uri = u
    · subst hu
      exact .inl ⟨_, _, _, e, entries, c, rfl, habandoned, huri, hcheck, hmark, hcurrent, hawaited,
        hleft⟩
    · exact absurd (adds_settle_other hu _ r) hpublished
  | @exhausted seq u c e text hfind hcurrent hawaited hpatient =>
    by_cases hu : uri = u
    · subst hu
      exact .inr ⟨seq, rfl, pursued?_of_find hsound hfind hcurrent hawaited,
        by rwa [retriesOf_eq (hsound.find hfind).1]⟩
    · have hlogged : Adds (fun x => ¬ PublishesOf uri x) r
          ((r.retireAbandoned seq).log .warning text) := ⟨[_], rfl, by simp [PublishesOf]⟩
      exact absurd (hlogged.trans (adds_settle_other hu _ _)) hpublished
  | @repeated seq u c e text =>
    refine absurd ⟨[.logged .info text, .sent ⟨(r.nextSeq : Nat), Service.errorCheckName,
      checkArguments c.file⟩], ?_, by simp [PublishesOf]⟩ hpublished
    simp [wrote, emit, log, completed, setCheck, retireAbandoned, takeSeq, nextSeq]
  | severed => exact absurd ⟨[_], rfl, by simp [PublishesOf]⟩ hpublished
  | _ => exact absurd (.of_outbox_eq rfl) hpublished

/-- **A document's diagnostics are published by news**, for one of the two
reasons. -/
theorem hear_of_notifications (hsound : r.Sound)
    (hpublished : notifications uri (since r (m.perform r).1) ≠ []) :
    ∃ note, m.news? = some note ∧ ¬ Adds (fun x => ¬ PublishesOf uri x) r (r.hear note).1 := by
  cases hnews : m.news? with
  | none =>
    have hsteps := steps_perform hnews (fun _ => id) fun u s hs => (hsound.filed u s hs).1
    refine absurd (notifications_of_adds (Adds.mono
      (fun x hx => not_publishesOf_of_not_publishes hx) ?_)) hpublished
    exact Steps.keep (P := Adds (fun x => ¬ x.Publishes) r)
      (fun _ _ hstep h => h.trans (unpublished_step hstep)) hsteps (.refl _ _)
  | some note =>
    refine ⟨note, rfl, fun hadds => hpublished (notifications_of_adds ?_)⟩
    refine hadds.trans ((perform_of_news hnews r).1.adds.mono ?_)
    rintro x hx ⟨diagnostics, version, rfl⟩
    exact hx trivial

/-- **What is published without some category** was told by a check that was cut
short, when no retries were left. -/
theorem cut_of_partial (hfiles : ApartAlong setup moves)
    (horder : InOrder setup (moves ++ [m]))
    (hpublished : notifications uri (since (run moves (Relay.new setup))
      (run (moves ++ [m]) (Relay.new setup))) ≠ [])
    (hpartial : ∃ k ∈ setup.categories,
      k ∉ Table.keys (reports (completions (heard moves)) (heard (moves ++ [m])))) :
    (cutBy? uri m (run moves (Relay.new setup))).isSome ∧
      maxRetries ≤ retriesOf uri (run moves (Relay.new setup)) := by
  have hsound := sound_run setup moves
  have hqueued := queued_along hfiles horder.of_snoc.1
  have hsetup := setup_run setup moves
  have hnext := horder.of_snoc.2
  rw [run_snoc] at hpublished
  generalize run moves (Relay.new setup) = r at hsound hqueued hsetup hnext hpublished ⊢
  obtain ⟨note, hnews, hadds⟩ := hear_of_notifications hsound hpublished
  rcases settled_or_cut (heard_hear note r) hsound hadds with
    ⟨file, category, items, e, entries, c, rfl, habandoned, huri, hcheck, hmark, hcurrent,
      hawaited, hleft⟩ | ⟨seq, rfl, hpursued, hretries⟩
  · -- the last part has come, so no category is missing
    exfalso
    obtain ⟨k, hk, hmissing⟩ := hpartial
    obtain ⟨⟨seq, hplace⟩, hnew⟩ := hnext _ hnews
    obtain ⟨rest, hdue⟩ := exists_drop_of_getElem? hplace
    have hout : c.outstanding ≠ [] := List.ne_nil_of_mem hawaited
    have hstate := hsound.states uri c hcheck
    obtain ⟨earlier, hlist, -⟩ := hstate.mark_newest hmark hcurrent
    have hnewest : c.inFlight.getLast? = some e := by simp [hlist]
    obtain ⟨-, -, hseq, -⟩ :=
      hqueued.marked (hsound.up hcheck hout) hdue hnew habandoned huri hcheck hmark
    rw [heard_snoc, hnews, Option.toList_some, reports_part, Table.keys, List.map_append,
      List.mem_append, not_or] at hmissing
    have hother : k ≠ category := by simpa using hmissing.2
    have htold := hqueued.told hdue hcheck hout hnewest hseq (hsetup.symm ▸ hk)
    have hunmerged : k ∉ Table.keys c.merged := by
      rw [Table.mem_keys_iff, htold, ← Table.mem_keys_iff]
      exact hmissing.1
    have hmem : k ∈ c.outstanding ++ Table.keys c.merged :=
      (hstate.parts hout).symm.subset (by simpa [hsetup] using hk)
    have hstill : k ∈ (c.counted category items entries).outstanding :=
      List.mem_filter.mpr
        ⟨(List.mem_append.mp hmem).resolve_right hunmerged, by simpa using hother⟩
    simp [hleft] at hstill
  · rw [cutBy?_eq_some.mpr ⟨hpursued, completed?_eq_some.mpr hnews⟩]
    exact ⟨rfl, hretries⟩

/-- **The checks fell short since an edit**, in the order given: each was written
after the edit for the document's file, and one of the moves after the edit completed
it before it had reported every category. -/
structure FellShortSince (setup : Setup) (before : List Move) (edit : Move) (after : List Move)
    (uri : String) (cut : List Int) : Prop where
  ascending : cut.Pairwise (· < ·)
  written : ∀ seq ∈ cut, (run before (Relay.new setup)).link.last < seq
  completed : ∀ seq ∈ cut, ∃ first m rest file, after = first ++ m :: rest ∧
    Uri.fileOf? uri = some file ∧ FallsShort setup (before ++ edit :: first) m seq file

/-- The results of some category are missing when the move is made: the oldest check
to be completed has not reported it by then. -/
def Partial (setup : Setup) (moves : List Move) (m : Move) : Prop :=
  ∃ k ∈ setup.categories,
    k ∉ Table.keys (reports (completions (heard moves)) (heard (moves ++ [m])))

/-- The checks of a document that are cut short after an edit fell short since. -/
theorem fellShortSince_cutShort {before after : List Move} {edit : Move}
    (hedit : edit.edited? = some uri)
    (hfiles : ApartAlong setup (before ++ edit :: after))
    (horder : InOrder setup (before ++ edit :: after)) :
    FellShortSince setup before edit after uri
      (cutShort uri after (run (before ++ [edit]) (Relay.new setup))) := by
  have hcut : ∀ seq ∈ cutShort uri after (run (before ++ [edit]) (Relay.new setup)),
      ∃ first m rest, after = first ++ m :: rest ∧
        cutBy? uri m (run (before ++ edit :: first) (Relay.new setup)) = some seq := by
    intro seq hseq
    obtain ⟨first, m, rest, hsplit, hcut⟩ := exists_of_mem_cutShort hseq
    rw [← run_append, List.append_assoc] at hcut
    exact ⟨first, m, rest, hsplit, hcut⟩
  refine ⟨cutShort_ascending (sound_run setup _) (traced_run setup _) uri after, ?_, ?_⟩
  · intro seq hseq
    obtain ⟨first, m, rest, -, hby⟩ := hcut seq hseq
    obtain ⟨c, e, hpursued, rfl⟩ := pursued_of_pursued? (sound_run setup _) (traced_run setup _)
      (cutBy?_eq_some.mp hby).1
    exact (newer_run setup _ hpursued.check hpursued.awaited hpursued.newest before edit first rfl
      hedit).1
  · intro seq hseq
    obtain ⟨first, m, rest, rfl, hby⟩ := hcut seq hseq
    have hsplit : before ++ edit :: (first ++ m :: rest) =
        (before ++ edit :: first ++ [m]) ++ rest := by simp
    rw [hsplit] at hfiles horder
    obtain ⟨file, hfile, hshort⟩ :=
      fallsShort_of_cutBy? hfiles.of_append.of_append horder.of_append hby
    exact ⟨first, m, rest, file, rfl, hfile, hshort⟩

/-- **Partial diagnostics come after enough retries.** Documents open at the same time
are of different files, and news come in the order of the analysis server. Where the
diagnostics of a document are published without some category, the checks that fell
short since any edit of the document are at least one more than the retries there are,
counting the retries its record had used up right after that edit. -/
theorem partial_after_retries (setup : Setup) (before after : List Move) (edit m : Move)
    (uri : String) (hedit : edit.edited? = some uri)
    (hfiles : ApartAlong setup (before ++ edit :: (after ++ [m])))
    (horder : InOrder setup (before ++ edit :: (after ++ [m])))
    (hpublished : notifications uri (since (run (before ++ edit :: after) (Relay.new setup))
      (run (before ++ edit :: (after ++ [m])) (Relay.new setup))) ≠ [])
    (hpartial : Partial setup (before ++ edit :: after) m) :
    ∃ cut, FellShortSince setup before edit (after ++ [m]) uri cut ∧
      1 + maxRetries ≤ retriesOf uri (run (before ++ [edit]) (Relay.new setup)) + cut.length := by
  refine ⟨_, fellShortSince_cutShort hedit hfiles horder, ?_⟩
  have hsplit : before ++ edit :: (after ++ [m]) = before ++ edit :: after ++ [m] := by simp
  rw [hsplit] at hfiles horder hpublished
  obtain ⟨hcut, hretries⟩ := cut_of_partial hfiles.of_append horder hpublished hpartial
  have hused := retries_run uri after (sound_run setup (before ++ [edit]))
  have hrun : run after (run (before ++ [edit]) (Relay.new setup)) =
      run (before ++ edit :: after) (Relay.new setup) := by
    rw [← run_append, List.append_assoc, List.singleton_append]
  rw [hrun] at hused
  obtain ⟨seq, hseq⟩ := Option.isSome_iff_exists.mp hcut
  rw [cutShort_snoc, hrun, hseq, List.length_append, Option.toList_some, List.length_singleton]
  omega

/-- A check completes. -/
def checkOver (seq : Int) : Move :=
  .receive (.obj
    (Service.Event.toFields ⟨0, "requestCompleted", .obj [("request_seq", .int seq)]⟩))

/-- The completion of the oldest check is in order. -/
theorem InOrder.checkOver (h : InOrder setup moves) (file : String)
    (hplace : (written (run moves (Relay.new setup)).outbox)[completions (heard moves)]? =
      some (seq, file)) : InOrder setup (moves ++ [Relay.checkOver seq]) := by
  refine .snoc h fun note hnote => ?_
  obtain rfl : News.completed seq = note := Option.some.inj hnote
  exact ⟨file, hplace⟩

theorem inOrder_cutTwice : InOrder syntaxOnly (oneWaiting ++ [checkOver 2] ++ [checkOver 3]) :=
  have hwaiting : InOrder syntaxOnly oneWaiting :=
    (InOrder.nil.without_news (m := oneWaiting[0]) rfl).without_news (m := oneWaiting[1]) rfl
  (hwaiting.checkOver "/a.ts" rfl).checkOver "/a.ts" rfl

/-- A document is opened. -/
def opening : Move := .openDocument "file:///a.ts" "typescript" 1 "x"

/-- A call asks for its diagnostics, and the check and its first repetition are cut
short. -/
def cutTwice : List Move := [.requestCheck "file:///a.ts" 7, checkOver 2, checkOver 3]

/-- So is the second repetition, and a notification without anything is published. -/
theorem partial_after_threeChecks :
    ApartAlong syntaxOnly ([] ++ opening :: (cutTwice ++ [checkOver 4])) ∧
    InOrder syntaxOnly ([] ++ opening :: (cutTwice ++ [checkOver 4])) ∧
    notifications "file:///a.ts" (since (run ([] ++ opening :: cutTwice) (Relay.new syntaxOnly))
      (run ([] ++ opening :: (cutTwice ++ [checkOver 4])) (Relay.new syntaxOnly))) ≠ [] ∧
    Partial syntaxOnly ([] ++ opening :: cutTwice) (checkOver 4) ∧
    ∃ cut, FellShortSince syntaxOnly [] opening (cutTwice ++ [checkOver 4]) "file:///a.ts" cut ∧
      1 + maxRetries ≤
        retriesOf "file:///a.ts" (run ([] ++ [opening]) (Relay.new syntaxOnly)) + cut.length := by
  have hfiles : ApartAlong syntaxOnly ([] ++ opening :: (cutTwice ++ [checkOver 4])) :=
    apartAlong_of_single fun u hu => List.mem_singleton.mp hu
  have horder : InOrder syntaxOnly ([] ++ opening :: (cutTwice ++ [checkOver 4])) :=
    inOrder_cutTwice.checkOver "/a.ts" rfl
  have hpublished : notifications "file:///a.ts"
      (since (run ([] ++ opening :: cutTwice) (Relay.new syntaxOnly))
        (run ([] ++ opening :: (cutTwice ++ [checkOver 4])) (Relay.new syntaxOnly))) =
      [([], some 1)] := rfl
  have hpublished := hpublished.trans_ne (List.cons_ne_nil _ _)
  have hpartial : Partial syntaxOnly ([] ++ opening :: cutTwice) (checkOver 4) :=
    ⟨"syntax", List.mem_singleton_self _, List.not_mem_nil⟩
  exact ⟨hfiles, horder, hpublished, hpartial,
    partial_after_retries syntaxOnly [] cutTwice opening (checkOver 4) "file:///a.ts" rfl hfiles
      horder hpublished hpartial⟩

/-- The document is changed. -/
def replaced : Move := .changeDocument "file:///a.ts" 2 [⟨none, "y"⟩]

/-- **Retries are carried over an edit.** The retries are used up before the document
is changed; of the checks written since, one falls short, and what it told is
published. -/
theorem partial_after_one_check :
    ApartAlong syntaxOnly
      (oneWaiting ++ [checkOver 2, checkOver 3] ++ replaced :: [checkOver 4, checkOver 6]) ∧
    InOrder syntaxOnly
      (oneWaiting ++ [checkOver 2, checkOver 3] ++ replaced :: [checkOver 4, checkOver 6]) ∧
    Partial syntaxOnly (oneWaiting ++ [checkOver 2, checkOver 3] ++ [replaced, checkOver 4])
      (checkOver 6) ∧
    notifications "file:///a.ts" (since
      (run (oneWaiting ++ [checkOver 2, checkOver 3] ++ [replaced, checkOver 4])
        (Relay.new syntaxOnly))
      (run (oneWaiting ++ [checkOver 2, checkOver 3] ++ [replaced, checkOver 4, checkOver 6])
        (Relay.new syntaxOnly))) = [([], some 2)] ∧
    ¬ ∃ cut, FellShortSince syntaxOnly (oneWaiting ++ [checkOver 2, checkOver 3]) replaced
      [checkOver 4, checkOver 6] "file:///a.ts" cut ∧ 1 + maxRetries ≤ cut.length := by
  refine ⟨apartAlong_of_single fun u hu => List.mem_singleton.mp hu, ?_,
    ⟨"syntax", List.mem_singleton_self _, List.not_mem_nil⟩, rfl, ?_⟩
  · exact ((inOrder_cutTwice.without_news (m := replaced) rfl).checkOver "/a.ts"
      rfl).checkOver "/a.ts" rfl
  · rintro ⟨cut, ⟨hascending, hwritten, hcompleted⟩, hlength⟩
    -- the two completions are of the checks 4 and 6, and 4 was written before the edit
    have hsix : ∀ seq ∈ cut, seq = 6 := by
      intro seq hseq
      have hlater : (4 : Int) < seq := hwritten seq hseq
      obtain ⟨first, m, rest, file, hsplit, -, hshort⟩ := hcompleted seq hseq
      have hmem : m ∈ [checkOver 4, checkOver 6] := hsplit ▸ by simp
      have hcompletes := hshort.completes
      rcases List.mem_cons.mp hmem with rfl | hmem
      · cases hcompletes
        omega
      · cases List.mem_singleton.mp hmem
        exact (Option.some.inj hcompletes).symm
    have hone : cut.length ≤ 1 := by
      match cut, hascending, hsix with
      | [], _, _ => exact Nat.zero_le _
      | [_], _, _ => exact Nat.le_refl _
      | seq :: seq' :: _, hascending, hsix =>
        have hlt := (List.pairwise_cons.mp hascending).1 seq' List.mem_cons_self
        have hsame := hsix seq List.mem_cons_self
        have hsame' := hsix seq' (List.mem_cons_of_mem _ List.mem_cons_self)
        omega
    rw [maxRetries] at hlength
    omega

end Relay

end LanguageRelay
