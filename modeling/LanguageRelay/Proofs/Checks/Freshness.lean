import LanguageRelay.Proofs.Checks.Publication
import LanguageRelay.Proofs.Checks.Regular
import Mathlib.Data.List.Induction
/-!
# What fresh diagnostics are fresh of

A record of checks is fresh if the diagnostics published last are to be
current. Then they are the results of one check, and its own document was not
edited after that check was written, nor was any document after the results
were published (`freshness`). An edit of another document that falls in
between, while the check was running, is overlooked (`overlooked_edit`):
settling sets the record fresh whatever happened meanwhile.
-/

namespace LanguageRelay

namespace Relay

variable {uris : List String} {r r' : Relay} {uri : String} {c : CheckState}
variable {setup : Setup} {moves before after : List Move} {settling : Move} {e : InFlight}

/-! ## Edits -/

/-- The move edits a document that is open: it is changed, or opened again
over a connection that is up. -/
inductive Edits (r : Relay) : Move → String → Prop where
  | changed {uri version changes} (hopen : r.session? uri ≠ none) :
      Edits r (.changeDocument uri version changes) uri
  | reopened {uri languageId version content} (hopen : r.session? uri ≠ none)
      (hup : r.link.closed = none) :
      Edits r (.openDocument uri languageId version content) uri

theorem Edits.edited? {m : Move} (h : Edits r m uri) : m.edited? = some uri := by
  cases h <;> rfl

/-- Along a run a document was edited when the number `seq` had been given
out. -/
def EditedSince (setup : Setup) (moves : List Move) (seq : Nat) (uri : String) : Prop :=
  ∃ before m after, moves = before ++ m :: after ∧
    Edits (run before (Relay.new setup)) m uri ∧ seq ≤ (run before (Relay.new setup)).link.last

/-- After a change no record is fresh. -/
theorem not_fresh_invalidate (uri : String) (r : Relay) {u : String} {c : CheckState}
    (hcheck : (r.invalidate uri).1.check? u = some c) : c.fresh = false := by
  have hstale : ∀ v d, r.stale.check? v = some d → d.fresh = false := by
    intro v d hd
    obtain ⟨d', -, rfl⟩ := Option.map_eq_some_iff.mp ((check?_mapChecks _ r v).symm.trans hd)
    rfl
  have hput : ∀ r₁ : Relay, r₁.checks = r.stale.checks → ∀ d : CheckState, d.fresh = false →
      (r₁.setCheck uri d).check? u = some c → c.fresh = false := by
    intro r₁ hr₁ d hd hset
    rw [check?_setCheck] at hset
    split at hset
    · cases hset
      exact hd
    · exact hstale u c (by rwa [check?, hr₁] at hset)
  unfold invalidate at hcheck
  simp only [] at hcheck
  cases hold : r.stale.check? uri with
  | none => exact hstale u c (by simpa [hold] using hcheck)
  | some d =>
    have hd := hstale uri d hold
    simp only [hold] at hcheck
    split at hcheck
    · exact hstale u c hcheck
    · split at hcheck
      · exact hput r.stale rfl d.dropped hd hcheck
      · cases htaken : r.stale.link.refusal? with
        | none =>
          rw [startGeneration_of_taken htaken] at hcheck
          exact hput (r.stale.wrote d.file) rfl (d.asked _ _) hd hcheck
        | some cause =>
          rw [startGeneration_of_refused cause htaken] at hcheck
          exact hstale u c hcheck

/-- **An edit leaves no record fresh**, of whatever document. -/
theorem not_fresh_of_edits {m : Move} {v u : String} (hedits : Edits r m v) (hsound : r.Sound)
    (hcheck : (m.perform r).1.check? u = some c) : c.fresh = false := by
  cases hedits with
  | @changed uri version changes hopen =>
    obtain ⟨s, hs⟩ := Option.ne_none_iff_exists'.mp hopen
    obtain ⟨r₁, -, -, heq⟩ : ∃ r₁, Steps [] r r₁ ∧ Amends r r₁ ∧
        (r.changeDocument v version changes).1 = (r₁.invalidate v).1 :=
      changeDocument_split hs (hsound.filed v s hs).1 version changes
    exact not_fresh_invalidate v r₁ (by rwa [← heq])
  | @reopened uri languageId version content hopen hup =>
    obtain ⟨s, hs⟩ := Option.ne_none_iff_exists'.mp hopen
    obtain ⟨r₁, -, -, ⟨heq, -⟩ | ⟨-, hfile | hrefused | hnone⟩⟩ :=
      openDocument_split (List.mem_singleton_self v) languageId version content r
    · exact not_fresh_invalidate v r₁ (by rwa [← heq])
    · simp [(hsound.filed v s hs).2] at hfile
    · exact absurd (hsound.refusal?_eq.trans hup) hrefused
    · exact absurd hnone hopen

/-! ## What makes a record fresh -/

/-- A record that is fresh was fresh before, for the same document. -/
def KeepsFresh (r r' : Relay) : Prop :=
  ∀ u c', r'.check? u = some c' → c'.fresh = true → ∃ c, r.check? u = some c ∧ c.fresh = true

theorem KeepsFresh.refl (r : Relay) : KeepsFresh r r := fun _ c hc hfresh => ⟨c, hc, hfresh⟩

theorem KeepsFresh.trans {r'' : Relay} (h : KeepsFresh r r') (h' : KeepsFresh r' r'') :
    KeepsFresh r r'' := by
  intro u c'' hc'' hfresh
  obtain ⟨c', hc', hfresh'⟩ := h' u c'' hc'' hfresh
  exact h u c' hc' hfresh'

theorem keepsFresh_of_checks (hchecks : r'.checks = r.checks) : KeepsFresh r r' :=
  fun _ c' hc' hfresh => ⟨c', by rwa [check?, ← hchecks], hfresh⟩

/-- A record may be set, if it is no fresher than the one before. -/
theorem keepsFresh_put (c' : CheckState) (hchecks : r'.checks = Table.put uri c' r.checks)
    (h : c'.fresh = true → ∃ c, r.check? uri = some c ∧ c.fresh = true) : KeepsFresh r r' := by
  intro u d hd hfresh
  rcases check?_put_cases hchecks hd with ⟨rfl, rfl⟩ | ⟨-, hd⟩
  · exact h hfresh
  · exact ⟨d, hd, hfresh⟩

theorem keepsFresh_mapChecks {f : CheckState → CheckState}
    (hf : ∀ c, (f c).fresh = true → c.fresh = true)
    (hchecks : r'.checks = (r.mapChecks f).checks) : KeepsFresh r r' := by
  intro u c' hc' hfresh
  rw [check?, hchecks, ← check?, check?_mapChecks] at hc'
  obtain ⟨c, hc, rfl⟩ := Option.map_eq_some_iff.mp hc'
  exact ⟨c, hc, hf c hfresh⟩

/-- **A relay makes no record fresh of its own accord.** -/
theorem keepsFresh_step (hstep : Step uris r r') : KeepsFresh r r' := by
  cases hstep with
  | quiet hq => exact keepsFresh_of_checks hq.checks
  | opened => exact keepsFresh_of_checks rfl
  | edited => exact keepsFresh_of_checks rfl
  | @enrolled u s => exact keepsFresh_put (CheckState.new s.file) rfl (by simp [CheckState.new])
  | @asked u c hcheck => exact keepsFresh_put (c.asked _ _) rfl fun hfresh => ⟨c, hcheck, hfresh⟩
  | @awaited u c waiter hcheck =>
    exact keepsFresh_put { c with waiters := c.waiters ++ [⟨waiter, false⟩] }
      (Table.update_eq_put _ hcheck) fun hfresh => ⟨c, hcheck, hfresh⟩
  | @withdrew waiter =>
    exact keepsFresh_mapChecks (f := fun c =>
      { c with waiters := c.waiters.map (Waiter.withdraw waiter) }) (fun _ => id) rfl
  | staled =>
    exact keepsFresh_mapChecks (f := fun c => { c with fresh := false }) (by simp) rfl
  | @dropped u c hcheck => exact keepsFresh_put c.dropped rfl fun hfresh => ⟨c, hcheck, hfresh⟩
  | @closed u =>
    intro v c' hc' hfresh
    rw [check?_forget] at hc'
    split at hc'
    · simp at hc'
    · exact ⟨c', hc', hfresh⟩
  | disconnected hup =>
    rw [disconnect_of_open hup]
    exact keepsFresh_mapChecks (f := CheckState.severed) (fun _ => id) rfl

/-- Diagnostics of the document were published. -/
def PublishesOf (uri : String) (x : Effect) : Prop :=
  ∃ diagnostics version, x = .published uri diagnostics version

/-- The results of the check `e` were published for the document between two
states: it was pursued, so what had been gathered was its own. -/
structure Publishes (uri : String) (e : InFlight) (r r' : Relay) : Prop where
  pursued : ∃ c, Pursued uri c e r
  published : ∃ fx, r'.outbox = r.outbox ++ fx ∧ ∃ x ∈ fx, PublishesOf uri x

/-- A record is fresh for one of two reasons: it was, and nothing was published
for its document since, or the results of a check were. -/
def Renews (uri : String) (r r' : Relay) : Prop :=
  ∀ c', r'.check? uri = some c' → c'.fresh = true →
    (∃ c, r.check? uri = some c ∧ c.fresh = true) ∧ Adds (fun x => ¬ PublishesOf uri x) r r' ∨
      ∃ e, Publishes uri e r r'

theorem KeepsFresh.renews (h : KeepsFresh r r')
    (hadds : Adds (fun x => ¬ PublishesOf uri x) r r') : Renews uri r r' :=
  fun c' hc' hfresh => .inl ⟨h uri c' hc' hfresh, hadds⟩

/-- Where all records and the history are the same, no record is renewed. -/
theorem renews_of_same (hchecks : r'.checks = r.checks) (houtbox : r'.outbox = r.outbox) :
    Renews uri r r' :=
  (keepsFresh_of_checks hchecks).renews (.of_outbox_eq houtbox)

theorem not_publishesOf_of_not_publishes {x : Effect} (h : ¬ x.Publishes) :
    ¬ PublishesOf uri x := by
  rintro ⟨diagnostics, version, rfl⟩
  exact h trivial

/-- **Settling makes a record fresh only by publishing**, and what it publishes
are the results of the check that was pursued. -/
theorem renews_settle {u : String} (r₀ : Relay) (d : CheckState) (notes : List Effect)
    (hpursued : Pursued u c e r) (hchecks : r₀.checks = r.checks)
    (houtbox : r₀.outbox = r.outbox ++ notes) (hlogs : ∀ x ∈ notes, x.IsLog)
    (hfresh : d.fresh = c.fresh) : Renews uri r (r₀.settle u d).1 := by
  have hnotes : ∀ x ∈ notes, ¬ PublishesOf uri x := by
    rintro x hx ⟨diagnostics, version, rfl⟩
    exact hlogs _ hx
  have hreleases : ∀ x ∈ releases (.ok ()) d.waiters, ¬ PublishesOf uri x := fun x hx =>
    not_publishesOf_of_not_publishes (silent_releases _ _ x hx).2
  have hskips : ∀ faults : List ProtocolFault, ∀ x ∈ faults.map (skipLine u),
      ¬ PublishesOf uri x := by
    rintro faults x hx ⟨diagnostics, version, rfl⟩
    obtain ⟨fault, -, hfault⟩ := List.mem_map.mp hx
    simp [skipLine] at hfault
  -- where nothing is published, the record is as fresh as it was
  have hkeeps : ∀ r' : Relay, r'.checks = Table.put u d.ended r₀.checks → KeepsFresh r r' :=
    fun r' hr' => keepsFresh_put d.ended (by rw [hr', hchecks]) fun h =>
      ⟨c, hpursued.check, hfresh ▸ h⟩
  have hadds : ∀ (r' : Relay) (fx : List Effect), r'.outbox = r₀.outbox ++ fx →
      (∀ x ∈ fx, ¬ PublishesOf uri x) → Adds (fun x => ¬ PublishesOf uri x) r r' := by
    intro r' fx hr' hfx
    refine ⟨notes ++ fx, by rw [hr', houtbox, List.append_assoc], fun x hx => ?_⟩
    exact (List.mem_append.mp hx).elim (hnotes x) (hfx x)
  cases hopen : r₀.session? u with
  | none =>
    rw [settle_of_closed hopen]
    exact (hkeeps _ rfl).renews (hadds _ _ rfl hreleases)
  | some s =>
    obtain ⟨faults, result, hentries⟩ : ∃ faults result,
        Diagnostic.ofEntries (mergedEntries r₀.setup.categories d.merged) = (faults, result) :=
      ⟨_, _, rfl⟩
    cases result with
    | error failure =>
      rw [settle_of_error hopen hentries]
      exact (hkeeps _ rfl).renews (hadds _ _ rfl (hskips faults))
    | ok diagnostics =>
      rw [settle_of_ok hopen hentries]
      intro c' hc' hfresh'
      -- what is published for another document leaves the record and its history alone
      by_cases hu : u = uri
      · subst hu
        exact .inr ⟨e, ⟨c, hpursued⟩, _, by rw [houtbox, List.append_assoc],
          .published u diagnostics (some s.version), by simp, diagnostics, some s.version, rfl⟩
      · change Table.get? uri (Table.put u _ r₀.checks) = some c' at hc'
        rw [Table.get?_put, if_neg hu, hchecks] at hc'
        refine .inl ⟨⟨c', hc', hfresh'⟩, hadds _ _ rfl fun x hx => ?_⟩
        rcases List.mem_append.mp hx with hx | hx
        · exact hskips faults x hx
        · rcases List.mem_cons.mp hx with rfl | hx
          · rintro ⟨diagnostics', version, heq⟩
            cases heq
            exact hu rfl
          · exact hreleases x hx

theorem renews_heard {note : News} {failure : Option Failure} (hheard : Heard r note r' failure)
    (hsound : r.Sound) (htraced : r.Traced) : Renews uri r r' := by
  cases hheard with
  | credited => exact renews_of_same rfl rfl
  | unawaited => exact renews_of_same rfl rfl
  | @outdated file category items f entries u c habandoned huri hcheck =>
    exact (keepsFresh_put { c with inFlight := entries } rfl fun h => ⟨c, hcheck, h⟩).renews
      (.of_outbox_eq rfl)
  | @counted file category items f entries u c habandoned huri hcheck =>
    exact (keepsFresh_put (c.counted category items entries) rfl fun h => ⟨c, hcheck, h⟩).renews
      (.of_outbox_eq rfl)
  | @settled file category items f entries u c habandoned huri hcheck hmark hcurrent hawaited =>
    obtain ⟨e, hpursued⟩ := exists_pursued hsound htraced hcheck (List.ne_nil_of_mem hawaited)
    exact renews_settle r (c.counted category items entries) [] hpursued rfl (by simp) (by simp) rfl
  | retired => exact renews_of_same rfl rfl
  | @overtaken seq u c f hfind =>
    exact (keepsFresh_put (c.after seq) rfl fun h => ⟨c, (hsound.find hfind).1, h⟩).renews
      (.of_outbox_eq rfl)
  | @repeated seq u c f text hfind =>
    refine (keepsFresh_put ((c.again seq).asked r.setup.categories r.nextSeq)
      (Table.put_put _ _ _ _) fun h => ⟨c, (hsound.find hfind).1, h⟩).renews ?_
    exact ⟨[.logged .info text, .sent ⟨(r.nextSeq : Nat), Service.errorCheckName,
      checkArguments c.file⟩], by simp [wrote, emit, log, completed, setCheck, retireAbandoned,
        takeSeq, nextSeq, CheckState.again, CheckState.after], by simp [PublishesOf]⟩
  | @severed seq u c f text cause hfind =>
    exact (keepsFresh_put (c.again seq) rfl fun h => ⟨c, (hsound.find hfind).1, h⟩).renews
      ⟨[_], rfl, by simp [PublishesOf]⟩
  | @exhausted seq u c f text hfind hcurrent hawaited =>
    obtain ⟨e, hpursued⟩ := exists_pursued hsound htraced (hsound.find hfind).1 hawaited
    exact renews_settle ((r.retireAbandoned seq).log .warning text) (c.exhausted seq)
      [.logged .warning text] hpursued rfl rfl (by simp [Effect.IsLog]) rfl

/-- **A move leaves a record fresh only if it edits nothing**, and then it
renews it. -/
theorem fresh_perform (m : Move) (hsound : r.Sound) (htraced : r.Traced)
    (hcheck : (m.perform r).1.check? uri = some c) (hfresh : c.fresh = true) :
    (∀ v, ¬ Edits r m v) ∧
      ((∃ c, r.check? uri = some c ∧ c.fresh = true) ∧
          Adds (fun x => ¬ PublishesOf uri x) r (m.perform r).1 ∨
        ∃ e, Publishes uri e r (m.perform r).1) := by
  refine ⟨fun v hedits => ?_, ?_⟩
  · rw [not_fresh_of_edits hedits hsound hcheck] at hfresh
    simp at hfresh
  · cases hnews : m.news? with
    | none =>
      have hsteps := steps_perform hnews (fun _ => id) fun u s hs => (hsound.filed u s hs).1
      obtain ⟨hkeeps, hadds⟩ := Steps.keep
        (P := fun r' => KeepsFresh r r' ∧ Adds (fun x => ¬ x.Publishes) r r')
        (fun _ _ hstep h => ⟨h.1.trans (keepsFresh_step hstep), h.2.trans (unpublished_step hstep)⟩)
        hsteps ⟨.refl r, .refl _ r⟩
      exact .inl ⟨hkeeps uri c hcheck hfresh,
        hadds.mono fun _ => not_publishesOf_of_not_publishes⟩
    | some note =>
      have hquiet := (perform_of_news hnews r).1
      obtain ⟨fy, hfy, hunpublished⟩ := hquiet.adds
      have hrest : ∀ x ∈ fy, ¬ PublishesOf uri x := by
        rintro x hx ⟨diagnostics, version, rfl⟩
        exact hunpublished _ hx trivial
      rw [hquiet.check?] at hcheck
      rcases renews_heard (heard_hear note r) hsound htraced c hcheck hfresh with
        ⟨hold, hadds⟩ | ⟨e, hpursued, fx, hfx, x, hx, hpublishes⟩
      · exact .inl ⟨hold, hadds.trans ⟨fy, hfy, hrest⟩⟩
      · exact .inr ⟨e, hpursued, fx ++ fy, by rw [hfy, hfx, List.append_assoc], x,
          List.mem_append_left _ hx, hpublishes⟩

/-! ## Runs -/

/-- **The results of the check `e` are the last published for a document**:
they were by the move `settling`, and nothing was since. -/
structure LastPublished (setup : Setup) (uri : String) (e : InFlight) (before : List Move)
    (settling : Move) (after : List Move) : Prop where
  publishes : Publishes uri e (run before (Relay.new setup))
    (run (before ++ [settling]) (Relay.new setup))
  silence : Adds (fun x => ¬ PublishesOf uri x) (run (before ++ [settling]) (Relay.new setup))
    (run (before ++ settling :: after) (Relay.new setup))

/-- No document was edited from the settling on. -/
def UneditedFrom (setup : Setup) (before later : List Move) : Prop :=
  ∀ first m rest v, later = first ++ m :: rest →
    ¬ Edits (run (before ++ first) (Relay.new setup)) m v

theorem UneditedFrom.snoc {later : List Move} {m : Move} (h : UneditedFrom setup before later)
    (hm : ∀ v, ¬ Edits (run (before ++ later) (Relay.new setup)) m v) :
    UneditedFrom setup before (later ++ [m]) := by
  intro first m' rest v hsplit
  rcases List.eq_nil_or_concat rest with rfl | ⟨rest', last, rfl⟩
  · obtain ⟨rfl, hlast⟩ := List.append_inj' hsplit rfl
    cases hlast
    exact hm v
  · rw [List.concat_eq_append, ← List.cons_append, ← List.append_assoc] at hsplit
    exact h first m' rest' v (List.append_inj' hsplit rfl).1

/-- **Where a record is fresh, the results of a check were published**, and no
document was edited since. -/
theorem lastPublished_of_fresh (setup : Setup) (moves : List Move)
    (hcheck : (run moves (Relay.new setup)).check? uri = some c) (hfresh : c.fresh = true) :
    ∃ before settling after e, moves = before ++ settling :: after ∧
      LastPublished setup uri e before settling after ∧
      UneditedFrom setup before (settling :: after) := by
  induction moves using List.reverseRecOn generalizing c with
  | nil => simp [Relay.new, check?] at hcheck
  | append_singleton moves m ih =>
    rw [run_snoc] at hcheck
    obtain ⟨hedits, ⟨⟨d, hd, hdfresh⟩, hadds⟩ | ⟨e, hpublishes⟩⟩ :=
      fresh_perform m (sound_run setup moves) (traced_run setup moves) hcheck hfresh
    · obtain ⟨before, settling, after, e, rfl, hlast, hunedited⟩ := ih hd hdfresh
      refine ⟨before, settling, after ++ [m], e, by simp, ⟨hlast.publishes, ?_⟩, ?_⟩
      · have hmore := hlast.silence.trans hadds
        rw [← run_snoc] at hmore
        simpa using hmore
      · exact hunedited.snoc hedits
    · refine ⟨moves, m, [], e, rfl, ⟨by rwa [run_snoc], .refl _ _⟩, ?_⟩
      have hnothing : UneditedFrom setup moves [] := fun first m' rest v h => by simp at h
      exact hnothing.snoc (by simpa using hedits)

/-- **Fresh diagnostics are overtaken by edits of other documents alone**, made
while the check was running: an edit after the check was written is one of
them, or there is none. -/
theorem editedSince_iff (hpursued : Pursued uri c e (run before (Relay.new setup)))
    (hunedited : UneditedFrom setup before (settling :: after)) :
    (∃ v, EditedSince setup (before ++ settling :: after) e.seq v) ↔
      ∃ v, v ≠ uri ∧ EditedSince setup before e.seq v := by
  have hafter := newer_run setup before hpursued.check hpursued.awaited hpursued.newest
  constructor
  · rintro ⟨v, first, m, rest, hsplit, hedits, hwritten⟩
    rcases List.append_eq_append_iff.mp hsplit.symm with ⟨mid, hbefore, hrest⟩ | ⟨mid, hfirst, hrest⟩
    · cases mid with
      | nil =>
        obtain rfl : before = first := by simpa using hbefore
        have hsettling : settling :: after = [] ++ m :: rest := by simpa using hrest.symm
        exact absurd (by simpa using hedits) (hunedited [] m rest v hsettling)
      | cons m' mid =>
        obtain ⟨rfl, -⟩ := List.cons.inj hrest
        refine ⟨v, ?_, first, m, mid, hbefore, hedits, hwritten⟩
        rintro rfl
        -- of its own document, edits came before the check was written
        have hlt := (hafter first m mid hbefore hedits.edited?).1
        omega
    · rw [hfirst] at hedits
      exact absurd hedits (hunedited mid m rest v hrest)
  · rintro ⟨v, -, first, m, rest, rfl, hedits, hwritten⟩
    exact ⟨v, first, m, rest ++ settling :: after, by simp, hedits, hwritten⟩

/-- **What a fresh record is fresh of**: the results of one check were
published last, and a document was edited since that check was written exactly
if another one was while the check was running. -/
def Dated (setup : Setup) (moves : List Move) (uri : String) : Prop :=
  ∃ before settling after e, moves = before ++ settling :: after ∧
    LastPublished setup uri e before settling after ∧
    ((∃ v, EditedSince setup moves e.seq v) ↔ ∃ v, v ≠ uri ∧ EditedSince setup before e.seq v)

/-- A call that need not wait leaves all as it is, and the record is fresh. -/
theorem fresh_of_requestCheck {waiter : Nat}
    (h : (r.requestCheck uri waiter).2 = .ok false) :
    (r.requestCheck uri waiter).1 = r ∧ ∃ c, r.check? uri = some c ∧ c.fresh = true := by
  have hasking := asking_requestCheck uri waiter r
  generalize r.requestCheck uri waiter = asked at h hasking ⊢
  obtain ⟨r', result⟩ := asked
  cases hasking with
  | current hcheck hout hfresh => exact ⟨rfl, _, hcheck, hfresh⟩
  | _ => simp at h

/-- **Freshness.** After any run, what is said of a fresh record holds, and a
call for diagnostics that is answered at once, with nothing written, is
answered from one. -/
theorem freshness (setup : Setup) (moves : List Move) (uri : String) :
    (∀ c, (run moves (Relay.new setup)).check? uri = some c → c.fresh = true →
      Dated setup moves uri) ∧
    ∀ waiter, ((run moves (Relay.new setup)).requestCheck uri waiter).2 = .ok false →
      ((run moves (Relay.new setup)).requestCheck uri waiter).1 = run moves (Relay.new setup) ∧
        Dated setup moves uri := by
  have hdated : ∀ c, (run moves (Relay.new setup)).check? uri = some c → c.fresh = true →
      Dated setup moves uri := by
    intro c hcheck hfresh
    obtain ⟨before, settling, after, e, hmoves, hlast, hunedited⟩ :=
      lastPublished_of_fresh setup moves hcheck hfresh
    obtain ⟨d, hpursued⟩ := hlast.publishes.pursued
    refine ⟨before, settling, after, e, hmoves, hlast, ?_⟩
    rw [hmoves]
    exact editedSince_iff hpursued hunedited
  refine ⟨hdated, fun waiter hready => ?_⟩
  obtain ⟨hsame, c, hcheck, hfresh⟩ := fresh_of_requestCheck hready
  exact ⟨hsame, hdated c hcheck hfresh⟩

/-- Two documents are open. -/
def twoOpen : List Move :=
  [.openDocument "file:///a.ts" "typescript" 1 "x", .openDocument "file:///b.ts" "typescript" 1 "x"]

/-- The other document is changed. -/
def otherChanged : Move := .changeDocument "file:///b.ts" 2 [⟨none, "y"⟩]

/-- The check of the file reports that there is nothing amiss. -/
def nothingAmiss : Move := .receive (.obj (syntaxPart []).toFields)

/-- Another document is changed before the check is written: a call is answered
at once, from a record that is fresh. -/
theorem freshness_afterOther :
    ((run (twoOpen ++ [otherChanged, .requestCheck "file:///a.ts" 7, nothingAmiss])
        (Relay.new syntaxOnly)).requestCheck "file:///a.ts" 8).2 = .ok false ∧
      Dated syntaxOnly (twoOpen ++ [otherChanged, .requestCheck "file:///a.ts" 7, nothingAmiss])
        "file:///a.ts" := by
  have hready : ((run (twoOpen ++ [otherChanged, .requestCheck "file:///a.ts" 7, nothingAmiss])
      (Relay.new syntaxOnly)).requestCheck "file:///a.ts" 8).2 = .ok false := rfl
  exact ⟨hready, ((freshness syntaxOnly _ "file:///a.ts").2 8 hready).2⟩

/-- **An edit of another document while the check is running is overlooked**:
the record is fresh all the same, and the next call is answered at once with
results that were asked for before the edit. -/
theorem overlooked_edit :
    (∃ c, (run (twoOpen ++ [.requestCheck "file:///a.ts" 7, otherChanged, nothingAmiss])
      (Relay.new syntaxOnly)).check? "file:///a.ts" = some c ∧ c.fresh = true) ∧
    LastPublished syntaxOnly "file:///a.ts" ⟨3, 1, []⟩
      (twoOpen ++ [.requestCheck "file:///a.ts" 7, otherChanged]) nothingAmiss [] ∧
    EditedSince syntaxOnly (twoOpen ++ [.requestCheck "file:///a.ts" 7, otherChanged, nothingAmiss])
      3 "file:///b.ts" ∧
    ((run (twoOpen ++ [.requestCheck "file:///a.ts" 7, otherChanged, nothingAmiss])
      (Relay.new syntaxOnly)).requestCheck "file:///a.ts" 8).2 = .ok false := by
  refine ⟨⟨_, rfl, rfl⟩, ⟨⟨⟨_, rfl, rfl, rfl, ?_, ?_, ?_, rfl⟩, ⟨_, rfl, _, List.mem_cons_self,
    [], some 1, rfl⟩⟩, .refl _ _⟩, ?_, rfl⟩
  · exact List.mem_singleton_self _
  · exact List.cons_ne_nil "syntax" []
  · exact fun _ _ => List.not_mem_nil
  · have hedits : Edits (run (twoOpen ++ [.requestCheck "file:///a.ts" 7]) (Relay.new syntaxOnly))
        otherChanged "file:///b.ts" := .changed (Option.some_ne_none _)
    exact ⟨_, otherChanged, [nothingAmiss], rfl, hedits, Nat.le_refl 3⟩

end Relay

end LanguageRelay
