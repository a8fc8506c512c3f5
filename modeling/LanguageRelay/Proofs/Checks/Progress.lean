import LanguageRelay.Proofs.Checks.Partial
/-!
# Checks that are cut short make progress

While parts are awaited for a document, and as long as it is neither edited nor
cut off, each of its checks that is cut short brings the end nearer: it is asked
for again, under a new generation and with one retry less, or what there is gets
published and all calls are released. Nothing else that happens meanwhile matters,
be it to other documents, to calls that join or are given up, or to timers
(`progress`).

What one move does is a `Stride`: the generation goes on, or is asked for again, or
settles. Along a segment strides add up to `UnderWay`, until one settles.
-/

namespace LanguageRelay

namespace Relay

variable {uris : List String} {r r' r'' : Relay} {uri : String} {c c' : CheckState} {e : InFlight}
variable {parts : List (String × List Json)} {entries : List Json} {n : Nat} {setup : Setup}
variable {before segment moves : List Move} {m : Move} {seq : Int} {failure : Option Failure}
variable {due : Option Int}

/-! ## Moves without news -/

/-- Telling the checks of one document of a change leaves the record of another,
though nothing published for it is current. -/
theorem check?_invalidate_of_ne {u : String} (hu : u ≠ uri) (r : Relay) :
    (r.invalidate u).1.check? uri = (r.check? uri).map fun c => { c with fresh := false } := by
  have hstale : r.stale.check? uri = (r.check? uri).map fun c => { c with fresh := false } :=
    check?_mapChecks _ r uri
  rw [← hstale]
  unfold invalidate
  simp only []
  generalize r.stale = r₁
  split
  · rfl
  · split
    · rfl
    · split
      · exact (check?_setCheck ..).trans (if_neg hu)
      · cases htaken : r₁.link.refusal? with
        | none =>
          rw [startGeneration_of_taken htaken]
          exact (check?_setCheck ..).trans (if_neg hu)
        | some cause => rw [startGeneration_of_refused cause htaken]; rfl

/-- The record of a document is `c`, but for the calls that wait and for whether
what is published is current. -/
def Spared (uri : String) (c : CheckState) (r : Relay) : Prop :=
  ∃ waiters fresh, r.check? uri = some { c with waiters, fresh }

theorem spared_of_check? (hcheck : r.check? uri = some c) (h : r'.check? uri = r.check? uri) :
    Spared uri c r' :=
  ⟨c.waiters, c.fresh, h.trans hcheck⟩

/-- A call that asks leaves a generation that runs. -/
theorem spared_asking {u : String} {waiter : Nat} {result : Except Failure Bool}
    (hasking : Asking u waiter r r' result) (hcheck : r.check? uri = some c)
    (hawaited : c.outstanding ≠ []) (htaken : r.link.refusal? = none) : Spared uri c r' := by
  cases hasking with
  | unopened => exact spared_of_check? hcheck rfl
  | current => exact spared_of_check? hcheck rfl
  | joined =>
    have hrecord := check?_addWaiter u waiter r uri
    rw [hcheck] at hrecord
    split at hrecord
    · exact ⟨_, c.fresh, hrecord⟩
    · exact ⟨c.waiters, c.fresh, hrecord⟩
  | refused henrolled hout hrefused => simp [htaken] at hrefused
  | @begun r₁ d file henrolled hout =>
    have hu : u ≠ uri := by
      rintro rfl
      rcases henrolled.before with h | ⟨h, -⟩
      · cases hcheck.symm.trans h
        exact hawaited hout
      · simp [hcheck] at h
    exact spared_of_check? hcheck ((check?_begun henrolled _ _ waiter uri).trans (if_neg hu))

/-- **A move without news leaves a generation that runs**, unless it edits the
document or closes the connection. -/
theorem spared_perform (hnews : m.news? = none) (hedited : m.edited? ≠ some uri)
    (hconnected : ¬ m.IsDisconnect) (hsound : r.Sound) (hcheck : r.check? uri = some c)
    (hawaited : c.outstanding ≠ []) : Spared uri c (m.perform r).1 := by
  have hamended : ∀ {r₁ : Relay}, Amends r r₁ → Spared uri c r₁ := fun hamends =>
    spared_of_check? hcheck (by rw [check?, hamends.checks, check?])
  have hinvalidated : ∀ {u : String} {r₁ : Relay}, u ≠ uri → Amends r r₁ →
      Spared uri c (r₁.invalidate u).1 := by
    intro u r₁ hu hamends
    refine ⟨c.waiters, false, ?_⟩
    rw [check?_invalidate_of_ne hu, check?, hamends.checks, ← check?, hcheck]
    rfl
  have hincidental : m.Incidental → Spared uri c (m.perform r).1 := fun hm =>
    spared_of_check? hcheck ((quiet_perform hm hnews r).check? uri)
  cases m with
  | openDocument u languageId version content =>
    have hu : u ≠ uri := fun heq => hedited (congrArg some heq)
    change Spared uri c (r.openDocument u languageId version content).1
    obtain ⟨r₁, -, hamends, ⟨heq, -⟩ | ⟨heq, -⟩⟩ :=
      openDocument_split (List.mem_singleton_self u) languageId version content r
    · exact heq ▸ hinvalidated hu hamends
    · exact heq ▸ hamended hamends
  | changeDocument u version changes =>
    have hu : u ≠ uri := fun heq => hedited (congrArg some heq)
    change Spared uri c (r.changeDocument u version changes).1
    cases hopen : r.session? u with
    | none => exact (changeDocument_of_not_open hopen version changes).symm ▸ hamended (Quiet.refl r).amends
    | some s =>
      obtain ⟨r₁, -, hamends, heq⟩ : ∃ r₁, Steps [] r r₁ ∧ Amends r r₁ ∧
          (r.changeDocument u version changes).1 = (r₁.invalidate u).1 :=
        changeDocument_split hopen (hsound.filed u s hopen).1 version changes
      exact heq ▸ hinvalidated hu hamends
  | closeDocument u =>
    have hu : u ≠ uri := fun heq => hedited (congrArg some heq)
    change Spared uri c (r.closeDocument u).1
    cases hopen : r.session? u with
    | none => exact (closeDocument_of_not_open hopen).symm ▸ hamended (Quiet.refl r).amends
    | some s =>
      refine spared_of_check? hcheck (((quiet_closeDocument hopen).check? uri).trans ?_)
      exact (check?_forget ..).trans (if_neg hu)
  | requestCheck u waiter =>
    exact spared_asking (asking_requestCheck u waiter r) hcheck hawaited
      (hsound.taken hcheck hawaited)
  | withdrawWaiter waiter =>
    exact ⟨_, c.fresh, (check?_mapChecks ..).trans (congrArg _ hcheck)⟩
  | disconnect cause => exact absurd trivial hconnected
  | _ => exact hincidental trivial

/-! ## Strides -/

/-- **A generation settles** with the entries that were told: what converts is
published, with the version of the session, and every call that waits is released.
Nothing else of checks is done. -/
structure Settled (uri : String) (c : CheckState) (entries : List Json) (r r' : Relay) : Prop where
  finished : ∃ c', r'.check? uri = some c' ∧ c'.outstanding = [] ∧ c'.waiters = [] ∧ c'.fresh = true
  told : ∃ s logs rest, r.session? uri = some s ∧ (∀ x ∈ logs, x.IsLog) ∧
    (∀ x ∈ rest, ¬ x.OfChecks) ∧
    since r r' = logs ++ .published uri (Diagnostic.convertible entries) (some s.version) ::
      (releases (.ok ()) c.waiters ++ rest)

/-- **What becomes of a generation that runs**, when `e` is pursued and `due` is the
oldest check to be completed, with the number of its checks that are cut short. -/
inductive Stride (uri : String) (c : CheckState) (e : InFlight) (due : Option Int)
    (entries : List Json) (r r' : Relay) (failure : Option Failure) : Nat → Prop where
  /-- It goes on. -/
  | kept {c' : CheckState} (hcheck' : r'.check? uri = some c') (hawaited' : c'.outstanding ≠ [])
      (hclean' : Clean r.setup.categories c') (hgeneration : c'.generation = c.generation)
      (hretries : c'.retries = c.retries) (hchecks : checksFor uri r r' = [])
      (hnotifications : notifications uri (since r r') = []) : Stride uri c e due entries r r' failure 0
  /-- Its check is cut short, and the next one asks again. -/
  | repeated {c' : CheckState} {command : Service.Command} (hcheck' : r'.check? uri = some c')
      (hawaited' : c'.outstanding ≠ []) (hclean' : Clean r.setup.categories c')
      (hgeneration : c'.generation = c.generation + 1) (hretries : c'.retries = c.retries + 1)
      (hchecks : checksFor uri r r' = [command])
      (hnotifications : notifications uri (since r r') = []) : Stride uri c e due entries r r' failure 1
  /-- It settles, with its last part or with a check that is cut short. -/
  | settled {cut : Nat} (hcut : cut ≤ 1) (hdue : due = some (e.seq : Int))
      (hdone : failure = none) (hchecks : checksFor uri r r' = []) (h : Settled uri c entries r r') :
      Stride uri c e due entries r r' failure cut

/-- A record that is as it was, but for the calls that wait, goes on. -/
theorem stride_kept (hnumbers : NumbersOn r r') (hspared : Spared uri c r')
    (hbounded : ∀ e ∈ c.inFlight, e.seq ≤ r.link.last) (hawaited : c.outstanding ≠ [])
    (hclean : Clean r.setup.categories c)
    (hadds : Adds (fun x => ¬ PublishesOf uri x) r r') : Stride uri c e due entries r r' failure 0 := by
  obtain ⟨waiters, fresh, hcheck'⟩ := hspared
  refine .kept hcheck' hawaited hclean rfl rfl (checksFor_of_le hnumbers ?_)
    (notifications_of_adds hadds)
  intro k hk
  rw [inFlightOf_eq hcheck'] at hk
  obtain ⟨e, he, rfl⟩ := List.mem_map.mp hk
  exact Int.ofNat_le.mpr (hbounded e he)

/-- Settling where every entry converts or is skipped. -/
theorem settled_settle (r₀ : Relay) (d : CheckState) {s : Session} {notes : List Effect}
    (hopen : r.session? uri = some s) (hsessions : r₀.sessions = r.sessions)
    (houtbox : r₀.outbox = r.outbox ++ notes) (hlogs : ∀ x ∈ notes, x.IsLog)
    (hout : d.outstanding = []) (hwaiters : d.waiters = c.waiters)
    (hentries : mergedEntries r₀.setup.categories d.merged = entries)
    (hall : ∀ entry ∈ entries, Diagnostic.Settleable entry) :
    (r₀.settle uri d).2 = none ∧ Settled uri c entries r (r₀.settle uri d).1 := by
  obtain ⟨faults, hof⟩ := Diagnostic.ofEntries_of_settleable hall
  rw [← hentries] at hof
  have hopen₀ : r₀.session? uri = some s := by rwa [session?, hsessions]
  rw [settle_of_ok hopen₀ hof]
  refine ⟨rfl, ⟨{ d.ended with fresh := true }, (Table.get?_put ..).trans (if_pos rfl), hout, rfl,
    rfl⟩, s, notes ++ faults.map (skipLine uri), [], hopen, fun x hx => ?_, by simp, ?_⟩
  · rcases List.mem_append.mp hx with hx | hx
    · exact hlogs x hx
    · obtain ⟨fault, -, rfl⟩ := List.mem_map.mp hx
      trivial
  · refine since_eq ?_
    simp [houtbox, hentries, hwaiters]

/-- What is quiet afterwards changes nothing about it. -/
theorem Settled.quiet (h : Settled uri c entries r r') (hnumbers : NumbersOn r r')
    (hq : Quiet r' r'') : Settled uri c entries r r'' := by
  obtain ⟨c', hcheck', hover⟩ := h.finished
  obtain ⟨s, logs, rest, hs, hlogs, hrest, htold⟩ := h.told
  obtain ⟨fy, hfy, hnone⟩ := hq.adds
  refine ⟨⟨c', (hq.check? uri).trans hcheck', hover⟩, s, logs, rest ++ fy, hs, hlogs, ?_, ?_⟩
  · intro x hx
    exact (List.mem_append.mp hx).elim (hrest x) (hnone x)
  · rw [since_trans hnumbers hq.numbers, htold, since_eq hfy]
    simp

/-- One notification is published. -/
theorem Settled.notifications (h : Settled uri c entries r r') :
    ∃ s, r.session? uri = some s ∧
      Relay.notifications uri (since r r') =
        [(Diagnostic.convertible entries, some s.version)] := by
  obtain ⟨s, logs, rest, hs, hlogs, hrest, htold⟩ := h.told
  refine ⟨s, hs, ?_⟩
  have hlogs' : Relay.notifications uri logs = [] := notifications_of_not_publishes fun x hx hp => by
    have hlog := hlogs x hx
    cases x with
    | published => exact hlog
    | _ => exact hp
  have hrest' : Relay.notifications uri rest = [] := notifications_of_not_publishes fun x hx hp => by
    have hnot := hrest x hx
    cases x with
    | published => exact hnot trivial
    | _ => exact hp
  have hreleases : Relay.notifications uri (releases (.ok ()) c.waiters) = [] :=
    notifications_of_not_publishes fun x hx => (silent_releases _ _ x hx).2
  rw [htold, notifications_append, hlogs', Relay.notifications, List.nil_append,
    List.filterMap_cons, notificationOf?, if_pos rfl, List.filterMap_append,
    ← Relay.notifications, ← Relay.notifications, hreleases, hrest', List.append_nil]

theorem Stride.quiet (h : Stride uri c e due entries r r' failure n) (hnumbers : NumbersOn r r')
    (hq : Quiet r' r'') : Stride uri c e due entries r r'' failure n := by
  have hchecks := checksFor_quiet uri hnumbers hq
  have hnotifications := notifications_quiet uri hnumbers hq
  cases h with
  | kept hcheck' hawaited' hclean' hgeneration hretries hnone hsilent =>
    exact .kept ((hq.check? uri).trans hcheck') hawaited' hclean' hgeneration hretries
      (hchecks.trans hnone) (hnotifications.trans hsilent)
  | repeated hcheck' hawaited' hclean' hgeneration hretries hone hsilent =>
    exact .repeated ((hq.check? uri).trans hcheck') hawaited' hclean' hgeneration hretries
      (hchecks.trans hone) (hnotifications.trans hsilent)
  | settled hcut hdue hdone hnone hsettled =>
    exact .settled hcut hdue hdone (hchecks.trans hnone) (hsettled.quiet hnumbers hq)

/-- A generation goes on where no number is given out and nothing published. -/
theorem stride_of_record (hsound' : r'.Sound) (hnumbers : NumbersOn r r')
    (hlast : r'.link.last = r.link.last) (hadds : Adds (fun x => ¬ PublishesOf uri x) r r')
    (hcheck' : r'.check? uri = some c') (hawaited' : c'.outstanding ≠ [])
    (hclean' : Clean r.setup.categories c') (hgeneration : c'.generation = c.generation)
    (hretries : c'.retries = c.retries) : Stride uri c e due entries r r' failure 0 :=
  .kept hcheck' hawaited' hclean' hgeneration hretries
    (checksFor_of_le hnumbers (hlast ▸ hsound'.inFlightOf_le uri)) (notifications_of_adds hadds)

/-- Settling for another document leaves a generation that runs. -/
theorem spared_settle {u : String} (hu : u ≠ uri) {r₀ : Relay} (d : CheckState)
    (hchecks : r₀.checks = r.checks) (hcheck : r.check? uri = some c) :
    Spared uri c (r₀.settle u d).1 := by
  obtain ⟨fresh, hrecord⟩ := check?_settle u d r₀
  refine spared_of_check? hcheck ((hrecord uri).trans ?_)
  rw [if_neg hu, check?, hchecks, check?]

/-- **What a part does for a document with a pursued check.** -/
theorem stride_part {file category : String} {items : List Json}
    (hheard : Heard r (.part file category items) r' failure) (hsound : r.Sound)
    (h : Queued uris n parts r) {rest : List (Int × String)}
    (hdue : (written r.outbox).drop n = (seq, file) :: rest) (hnew : category ∉ Table.keys parts)
    (hpursued : Pursued uri c e r) (hclean : Clean r.setup.categories c)
    (hitems : (e.seq : Int) = seq → ∀ entry ∈ items, Diagnostic.Settleable entry) :
    Stride uri c e (some seq) (mergedEntries r.setup.categories (parts ++ [(category, items)])) r r' failure
      0 := by
  have hcheck := hpursued.check
  have hsound' := sound_heard hheard hsound
  have hnumbers := numbersOn_heard hheard
  have hbounded : ∀ e ∈ c.inFlight, e.seq ≤ r.link.last := fun e he =>
    ((hsound.states uri c hcheck).bounded e he).1
  -- a part that counts for the document is one of the pursued check
  have hown : ∀ {e' entries}, markFirst category ((Table.get? file r.abandoned).getD []) = none →
      Table.get? file r.uriByFile = some uri → markFirst category c.inFlight = some (e', entries) →
      e'.generation = c.generation → (e.seq : Int) = seq := by
    intro e' entries habandoned huri hmark hcurrent
    obtain ⟨earlier, hlist, -⟩ := (hsound.states uri c hcheck).mark_newest hmark hcurrent
    obtain rfl : e' = e := by simpa [hlist] using hpursued.newest
    exact (h.marked hpursued.up hdue hnew habandoned huri hcheck hmark).2.2.1
  cases hheard with
  | credited =>
    exact stride_kept hnumbers (spared_of_check? hcheck rfl) hbounded hpursued.awaited hclean
      (.of_outbox_eq rfl)
  | unawaited =>
    exact stride_kept hnumbers (spared_of_check? hcheck rfl) hbounded hpursued.awaited hclean
      (.of_outbox_eq rfl)
  | @outdated _ _ _ e' entries u d habandoned huri hcheck' =>
    by_cases hu : u = uri
    · subst hu
      cases hcheck.symm.trans hcheck'
      exact stride_of_record hsound' hnumbers rfl (.of_outbox_eq rfl)
        ((check?_setCheck ..).trans (if_pos rfl)) hpursued.awaited hclean rfl rfl
    · exact stride_kept hnumbers
        (spared_of_check? hcheck ((check?_setCheck ..).trans (if_neg hu))) hbounded
        hpursued.awaited hclean (.of_outbox_eq rfl)
  | @counted _ _ _ e' entries u d habandoned huri hcheck' hmark hcurrent hawaited hleft =>
    by_cases hu : u = uri
    · subst hu
      cases hcheck.symm.trans hcheck'
      exact stride_of_record hsound' hnumbers rfl (.of_outbox_eq rfl)
        ((check?_setCheck ..).trans (if_pos rfl)) hleft
        (hclean.counted (hitems (hown habandoned huri hmark hcurrent)) entries) rfl rfl
    · exact stride_kept hnumbers
        (spared_of_check? hcheck ((check?_setCheck ..).trans (if_neg hu))) hbounded
        hpursued.awaited hclean (.of_outbox_eq rfl)
  | @settled _ _ _ e' entries u d habandoned huri hcheck' hmark hcurrent hawaited hleft =>
    by_cases hu : u = uri
    · subst hu
      cases hcheck.symm.trans hcheck'
      have hseq := hown habandoned huri hmark hcurrent
      have hcounted : Clean r.setup.categories (c.counted category items entries) :=
        hclean.counted (hitems hseq) entries
      have hmerged : mergedEntries r.setup.categories (c.counted category items entries).merged =
          mergedEntries r.setup.categories (parts ++ [(category, items)]) := by
        refine mergedEntries_congr fun k hk => ?_
        have htold := h.told hdue hcheck hpursued.awaited hpursued.newest hseq hk
        exact CheckState.told_counted htold hnew items entries
      obtain ⟨s, hopen, -⟩ := hsound.opened u c hcheck
      obtain ⟨hdone, hsettled⟩ := settled_settle (c := c) r
        (c.counted category items entries) hopen rfl
        (List.append_nil r.outbox).symm (by simp) hleft rfl hmerged (hmerged ▸ hcounted)
      exact .settled (Nat.zero_le _) (congrArg some hseq.symm) hdone
        (checksFor_of_le hnumbers (last_settle u _ r ▸ hsound'.inFlightOf_le u)) hsettled
    · exact stride_kept hnumbers (spared_settle hu _ rfl hcheck) hbounded hpursued.awaited hclean
        (adds_settle_other (Ne.symm hu) _ r)

/-- To ask again writes one check, and nothing else of documents. -/
theorem outbox_again (uri : String) (c : CheckState) (seq : Int) (text : String) (r : Relay) :
    ((((r.completed seq uri c).log .info text).wrote c.file).setCheck uri
      ((c.again seq).asked r.setup.categories r.nextSeq)).outbox =
        r.outbox ++ [.logged .info text, .sent ⟨(r.nextSeq : Nat), Service.errorCheckName,
          checkArguments c.file⟩] := by
  simp [wrote, emit, log, completed, setCheck, retireAbandoned, takeSeq, nextSeq]

/-- **A pursued check that is cut short is asked again.** -/
theorem stride_again (hsound : r.Sound) (hcheck : r.check? uri = some c)
    (hawaited : c.outstanding ≠ []) (seq : Int) (text : String) :
    Stride uri c e due entries r
      ((((r.completed seq uri c).log .info text).wrote c.file).setCheck uri
        ((c.again seq).asked r.setup.categories r.nextSeq)) failure 1 := by
  have houtbox := outbox_again uri c seq text r
  have hrecord : ((((r.completed seq uri c).log .info text).wrote c.file).setCheck uri
      ((c.again seq).asked r.setup.categories r.nextSeq)).check? uri =
        some ((c.again seq).asked r.setup.categories r.nextSeq) :=
    (check?_setCheck ..).trans (if_pos rfl)
  have hcategories : r.setup.categories ≠ [] := by
    intro hnil
    have hparts := (hsound.states uri c hcheck).parts hawaited
    rw [hnil] at hparts
    exact hawaited (List.append_eq_nil_iff.mp hparts.eq_nil).1
  have hchecks : checksFor uri r ((((r.completed seq uri c).log .info text).wrote c.file).setCheck
      uri ((c.again seq).asked r.setup.categories r.nextSeq)) =
        [⟨(r.nextSeq : Nat), Service.errorCheckName, checkArguments c.file⟩] := by
    rw [checksFor, since_eq houtbox, inFlightOf_eq hrecord]
    simp [List.filterMap_cons, checkAmong?, CheckState.asked]
  exact .repeated hrecord (CheckState.asked_awaits hcategories _ _)
    (clean_of_nothing_merged _ rfl) rfl rfl hchecks
    (notifications_of_adds ⟨_, houtbox, by simp [PublishesOf]⟩)

/-- **A pursued check that is cut short once too often settles** with the parts that
came. -/
theorem stride_exhausted (hsound : r.Sound) (h : Queued uris n parts r) {file text : String}
    {rest : List (Int × String)} (hdue : (written r.outbox).drop n = (seq, file) :: rest)
    (hpursued : Pursued uri c e r) (hclean : Clean r.setup.categories c) (hseq : (e.seq : Int) = seq)
    (hsettled : (((r.retireAbandoned seq).log .warning text).settle uri (c.exhausted seq)).1 = r')
    (hdone : (((r.retireAbandoned seq).log .warning text).settle uri (c.exhausted seq)).2 = failure)
    (hsound' : r'.Sound) (hnumbers : NumbersOn r r') :
    Stride uri c e (some seq) (mergedEntries r.setup.categories parts) r r' failure 1 := by
  subst hsettled hdone
  have hmerged : mergedEntries r.setup.categories (c.exhausted seq).merged =
      mergedEntries r.setup.categories parts :=
    mergedEntries_congr fun k hk =>
      h.told hdue hpursued.check hpursued.awaited hpursued.newest hseq hk
  obtain ⟨s, hopen, -⟩ := hsound.opened uri c hpursued.check
  have houtbox : ((r.retireAbandoned seq).log .warning text).outbox =
      r.outbox ++ [.logged .warning text] := rfl
  obtain ⟨hdone, hsettled⟩ := settled_settle (c := c)
    ((r.retireAbandoned seq).log .warning text) (c.exhausted seq) hopen rfl houtbox
    (by simp [Effect.IsLog]) rfl rfl hmerged (hmerged ▸ hclean)
  refine .settled (Nat.le_refl 1) (congrArg some hseq.symm) hdone
    (checksFor_of_le hnumbers ?_) hsettled
  have hlast := last_settle uri (c.exhausted seq) ((r.retireAbandoned seq).log .warning text)
  change _ = r.link.last at hlast
  exact hlast ▸ hsound'.inFlightOf_le uri

/-- **What a completion does for a document with a pursued check**: it matters if it is
that of this check. -/
theorem stride_over (hheard : Heard r (.completed seq) r' failure) (hsound : r.Sound)
    (htraced : r.Traced) (h : Queued uris n parts r) {file : String} {rest : List (Int × String)}
    (hdue : (written r.outbox).drop n = (seq, file) :: rest) (hpursued : Pursued uri c e r)
    (hclean : Clean r.setup.categories c) :
    Stride uri c e (some seq) (mergedEntries r.setup.categories parts) r r' failure
      (if (e.seq : Int) = seq then 1 else 0) := by
  have hcheck := hpursued.check
  have hsound' := sound_heard hheard hsound
  have hnumbers := numbersOn_heard hheard
  have hstate := hsound.states uri c hcheck
  have hbounded : ∀ e ∈ c.inFlight, e.seq ≤ r.link.last := fun e he => (hstate.bounded e he).1
  have hmem := List.mem_of_getLast? hpursued.newest
  have hfound := htraced.find hsound hcheck hmem
  have hlogged : ∀ level text, Adds (fun x => ¬ PublishesOf uri x) r
      ((r.retireAbandoned seq).log level text) := fun level text =>
    ⟨[.logged level text], rfl, by simp [PublishesOf]⟩
  -- the check of this document that is current is the pursued one
  have hsame : ∀ {u d e'}, findInFlight? seq r.checks = some (u, d, e') →
      e'.generation = d.generation → u = uri → (e.seq : Int) = seq := by
    rintro u d e' hfind hcurrent rfl
    obtain ⟨hd, he', hseq⟩ := hsound.find hfind
    cases hcheck.symm.trans hd
    have hnewest := hstate.newest_of_current he' hcurrent hpursued.awaited
    cases hpursued.newest.symm.trans hnewest
    exact hseq
  cases hheard with
  | retired hfind =>
    have hne : (e.seq : Int) ≠ seq := by
      rintro rfl
      simp [hfound] at hfind
    rw [if_neg hne]
    exact stride_kept hnumbers (spared_of_check? hcheck rfl) hbounded hpursued.awaited hclean
      (.of_outbox_eq rfl)
  | @overtaken _ u d e' hfind hold =>
    have hne : (e.seq : Int) ≠ seq := by
      rintro rfl
      cases hfound.symm.trans hfind
      exact hpursued.awaited (hold.resolve_left (not_not.mpr hpursued.current))
    rw [if_neg hne]
    by_cases hu : u = uri
    · subst hu
      cases hcheck.symm.trans (hsound.find hfind).1
      exact stride_of_record hsound' hnumbers rfl (.of_outbox_eq rfl)
        ((check?_setCheck ..).trans (if_pos rfl)) hpursued.awaited hclean rfl rfl
    · exact stride_kept hnumbers
        (spared_of_check? hcheck ((check?_setCheck ..).trans (if_neg hu))) hbounded
        hpursued.awaited hclean (.of_outbox_eq rfl)
  | @repeated _ u d e' text hfind hcurrent hawaited hpatient hup =>
    by_cases hu : u = uri
    · subst hu
      rw [if_pos (hsame hfind hcurrent rfl)]
      cases hcheck.symm.trans (hsound.find hfind).1
      exact stride_again hsound hcheck hawaited seq text
    · rw [if_neg fun hseq => hu ?_]
      · refine stride_kept hnumbers (spared_of_check? hcheck ?_) hbounded hpursued.awaited hclean
          ⟨_, outbox_again u d seq text r, by simp [PublishesOf]⟩
        rw [check?_setCheck, if_neg hu]
        exact (check?_setCheck ..).trans (if_neg hu)
      · subst hseq
        cases hfound.symm.trans hfind
        rfl
  | @severed _ u d e' text cause hfind hcurrent hawaited hpatient hrefused =>
    simp [hsound.taken hpursued.check hpursued.awaited] at hrefused
  | @exhausted _ u d e' text hfind hcurrent hawaited hpatient =>
    by_cases hu : u = uri
    · subst hu
      have hseq := hsame hfind hcurrent rfl
      cases hcheck.symm.trans (hsound.find hfind).1
      rw [if_pos hseq]
      exact stride_exhausted hsound h hdue hpursued hclean hseq rfl rfl hsound' hnumbers
    · rw [if_neg fun hseq => hu ?_]
      · exact stride_kept hnumbers (spared_settle hu _ rfl hcheck) hbounded hpursued.awaited hclean
          ((hlogged _ _).trans (adds_settle_other (Ne.symm hu) _ _))
      · subst hseq
        cases hfound.symm.trans hfind
        rfl

/-! ## Undisturbed segments -/

/-- **A move leaves a document to the analysis server**, made after others: it neither
edits the document nor closes the connection, and what it tells of the check that is
pursued converts or is skipped. -/
structure Undisturbing (setup : Setup) (uri : String) (moves : List Move) (m : Move) : Prop where
  unedited : m.edited? ≠ some uri
  connected : ¬ m.IsDisconnect
  settleable : ∀ file category items seq, m.news? = some (.part file category items) →
    (written (run moves (Relay.new setup)).outbox)[completions (heard moves)]? = some (seq, file) →
    pursued? uri (run moves (Relay.new setup)) = some seq →
    ∀ entry ∈ items, Diagnostic.Settleable entry

/-- All moves of a segment do, where they are made. -/
def Undisturbed (setup : Setup) (uri : String) (before segment : List Move) : Prop :=
  ∀ first m rest, segment = first ++ m :: rest → Undisturbing setup uri (before ++ first) m

/-- **What an undisturbing move does** for a document with a pursued check. -/
theorem stride_perform (hfiles : ApartAlong setup moves)
    (horder : InOrder setup (moves ++ [m])) (hm : Undisturbing setup uri moves m)
    (hpursued : Pursued uri c e (run moves (Relay.new setup)))
    (hclean : Clean setup.categories c) :
    Stride uri c e
      ((written (run moves (Relay.new setup)).outbox)[completions (heard moves)]?.map Prod.fst)
      (reportedEntries setup moves m) (run moves (Relay.new setup))
      (run (moves ++ [m]) (Relay.new setup)) (m.perform (run moves (Relay.new setup))).2
      (cutBy? uri m (run moves (Relay.new setup))).toList.length := by
  have hsound := sound_run setup moves
  have htraced := traced_run setup moves
  have hqueued := queued_along hfiles horder.of_snoc.1
  have hsetup := setup_run setup moves
  have hnext := horder.of_snoc.2
  have hsettleable := hm.settleable
  rw [run_snoc]
  rw [← hsetup] at hclean
  have hentries : ∀ parts, reports (completions (heard moves)) (heard (moves ++ [m])) = parts →
      reportedEntries setup moves m =
        mergedEntries (run moves (Relay.new setup)).setup.categories parts := by
    rintro parts rfl
    rw [hsetup]
    rfl
  generalize run moves (Relay.new setup) = r at *
  have hnumbers := numbersOn_perform m fun u s hs => (hsound.filed u s hs).1
  cases hnews : m.news? with
  | none =>
    have huncut : cutBy? uri m r = none :=
      Option.filter_eq_none_iff.mpr fun seq _ => by simp [Move.completed?, hnews]
    rw [huncut]
    have hsteps := steps_perform hnews (fun _ => id) fun u s hs => (hsound.filed u s hs).1
    have hadds : Adds (fun x => ¬ x.Publishes) r (m.perform r).1 :=
      Steps.keep (fun _ _ hstep h => h.trans (unpublished_step hstep)) hsteps (.refl _ _)
    refine stride_kept hnumbers (spared_perform hnews hm.unedited hm.connected hsound
      hpursued.check hpursued.awaited) (fun e he => ?_) hpursued.awaited hclean
      (hadds.mono fun x => not_publishesOf_of_not_publishes)
    exact ((hsound.states uri c hpursued.check).bounded e he).1
  | some note =>
    obtain ⟨hq, hfailure⟩ := perform_of_news hnews r
    have hheard := heard_hear note r
    rw [hfailure]
    refine Stride.quiet ?_ (numbersOn_heard hheard) hq
    cases note with
    | part file category items =>
      obtain ⟨⟨seq, hplace⟩, hnew⟩ := hnext _ hnews
      obtain ⟨rest, hdue⟩ := exists_drop_of_getElem? hplace
      have huncut : cutBy? uri m r = none :=
        Option.filter_eq_none_iff.mpr fun seq _ => by
          simp [Move.completed?, News.completed?, hnews]
      rw [huncut, hplace, hentries _ (by rw [heard_snoc, hnews, Option.toList_some, reports_part])]
      exact stride_part hheard hsound hqueued hdue hnew hpursued hclean fun hseq =>
        hsettleable file category items seq hnews hplace
          (hpursued.pursued?.trans (congrArg some hseq))
    | completed seq =>
      obtain ⟨file, hplace⟩ := hnext _ hnews
      obtain ⟨rest, hdue⟩ := exists_drop_of_getElem? hplace
      have hcut : (cutBy? uri m r).toList.length = if (e.seq : Int) = seq then 1 else 0 := by
        rw [cutBy?, hpursued.pursued?, Option.filter_some, completed?_eq_some.mpr hnews]
        by_cases hseq : (e.seq : Int) = seq
        · simp [hseq]
        · simp [hseq, Ne.symm hseq]
      rw [hcut, hplace, hentries _ (by rw [heard_snoc, hnews, Option.toList_some, reports_over])]
      exact stride_over hheard hsound htraced hqueued hdue hpursued hclean

/-! ## Progress -/

/-- **The generation is still under way** after moves, where the record of the document
was `c` before them. Each of its checks that was cut short was asked for again, once,
under a new generation and with one retry less. -/
structure UnderWay (uri : String) (c : CheckState) (moves : List Move) (r : Relay) : Prop where
  record : ∃ c', (run moves r).check? uri = some c' ∧ c'.outstanding ≠ [] ∧
    Clean r.setup.categories c' ∧
    c'.generation = c.generation + (checksAlong uri moves r).length ∧
    c'.retries = c.retries + (checksAlong uri moves r).length
  cut : (cutShort uri moves r).length = (checksAlong uri moves r).length
  bounded : c.retries + (checksAlong uri moves r).length ≤ maxRetries
  unpublished : notifications uri (since r (run moves r)) = []

/-- It is under way after each of the moves. -/
def UnderWayAlong (uri : String) (c : CheckState) (moves : List Move) (r : Relay) : Prop :=
  ∀ first rest, moves = first ++ rest → UnderWay uri c first r

/-- **The diagnostics of a document settle** with a move made after others: it asks for
nothing, and does not fail; what the check at the front of the queue has told is
published, which is the one that was pursued, and all calls that wait are released. -/
structure Settles (setup : Setup) (uri : String) (moves : List Move) (m : Move) : Prop where
  done : (m.perform (run moves (Relay.new setup))).2 = none
  unasked : checksFor uri (run moves (Relay.new setup))
    (run (moves ++ [m]) (Relay.new setup)) = []
  told : ∃ c e, Pursued uri c e (run moves (Relay.new setup)) ∧
    (written (run moves (Relay.new setup)).outbox)[completions (heard moves)]?.map Prod.fst =
      some (e.seq : Int) ∧
    Settled uri c (reportedEntries setup moves m) (run moves (Relay.new setup))
      (run (moves ++ [m]) (Relay.new setup))

/-- **They settle within a segment** that follows other moves, where the record of the
document was `c` before it, and no more checks are cut short until then than there are
retries left, and one. -/
def SettlesWithin (setup : Setup) (uri : String) (c : CheckState) (before segment : List Move) :
    Prop :=
  ∃ first m rest, segment = first ++ m :: rest ∧
    UnderWayAlong uri c first (run before (Relay.new setup)) ∧
    Settles setup uri (before ++ first) m ∧
    c.retries + (cutShort uri (first ++ [m]) (run before (Relay.new setup))).length ≤
      1 + maxRetries

theorem checksAlong_snoc (uri : String) (moves : List Move) (m : Move) (r : Relay) :
    checksAlong uri (moves ++ [m]) r =
      checksAlong uri moves r ++ checksFor uri (run moves r) (m.perform (run moves r)).1 := by
  induction moves generalizing r with
  | nil => simp [checksAlong]
  | cons m' rest ih =>
    rw [List.cons_append, checksAlong, ih, checksAlong, List.append_assoc]
    rfl

/-- A stride leaves a generation under way, or settles it. -/
theorem UnderWay.stride (h : UnderWay uri c segment r) (hsound : r.Sound)
    (hcheck' : (run segment r).check? uri = some c')
    (hstride : Stride uri c' e due entries (run segment r) (m.perform (run segment r)).1 failure
      (cutBy? uri m (run segment r)).toList.length) :
    UnderWay uri c (segment ++ [m]) r ∨
      failure = none ∧ checksFor uri (run segment r) (m.perform (run segment r)).1 = [] ∧
        due = some (e.seq : Int) ∧
        Settled uri c' entries (run segment r) (m.perform (run segment r)).1 ∧
        c.retries + (cutShort uri (segment ++ [m]) r).length ≤ 1 + maxRetries := by
  obtain ⟨d, hd, -, -, hgeneration, hretries⟩ := h.record
  cases hcheck'.symm.trans hd
  have hbounded := h.bounded
  have hsound₁ : (run segment r).Sound :=
    run_induction hsound (fun _ m h => sound_perform m h) segment
  have hsound₂ := sound_perform m hsound₁
  have hsetup₁ : (run segment r).setup = r.setup :=
    (run_induction (P := fun r' => r'.Sound ∧ r'.setup = r.setup) ⟨hsound, rfl⟩
      (fun _ m h => ⟨sound_perform m h.1, (setup_perform m h.1.toKept).trans h.2⟩) segment).2
  have hcut : (cutShort uri (segment ++ [m]) r).length =
      (checksAlong uri segment r).length +
        (cutBy? uri m (run segment r)).toList.length := by
    rw [cutShort_snoc, List.length_append, h.cut]
  have hchecks : (checksAlong uri (segment ++ [m]) r).length =
      (checksAlong uri segment r).length +
        (checksFor uri (run segment r) (m.perform (run segment r)).1).length := by
    rw [checksAlong_snoc, List.length_append]
  have hsilent : notifications uri (since (run segment r) (m.perform (run segment r)).1) = [] →
      notifications uri (since r (run (segment ++ [m]) r)) = [] := by
    intro hnone
    rw [run_snoc, since_trans (numbersOn_run segment hsound)
      (numbersOn_perform m fun u s hs => (hsound₁.filed u s hs).1), notifications_append,
      h.unpublished, hnone, List.append_nil]
  generalize (cutBy? uri m (run segment r)).toList.length = cut at hstride hcut
  cases hstride with
  | @kept d hd hawaited hclean hgeneration' hretries' hnone hunpublished =>
    rw [hnone, List.length_nil] at hchecks
    refine .inl ⟨⟨d, by rwa [run_snoc], hawaited, hsetup₁ ▸ hclean, by omega, by omega⟩, by omega,
      by omega, hsilent hunpublished⟩
  | @repeated d command hd hawaited hclean hgeneration' hretries' hone hunpublished =>
    rw [hone, List.length_singleton] at hchecks
    have hpatient := (hsound₂.states uri d hd).patient
    refine .inl ⟨⟨d, by rwa [run_snoc], hawaited, hsetup₁ ▸ hclean, by omega, by omega⟩, by omega,
      by omega, hsilent hunpublished⟩
  | settled hle hdue hdone hnone hsettled =>
    exact .inr ⟨hdone, hnone, hdue, hsettled, by omega⟩

theorem UnderWayAlong.snoc (h : UnderWayAlong uri c segment r)
    (hlast : UnderWay uri c (segment ++ [m]) r) : UnderWayAlong uri c (segment ++ [m]) r := by
  intro first rest hsplit
  rcases List.eq_nil_or_concat rest with rfl | ⟨rest', last, rfl⟩
  · rw [List.append_nil] at hsplit
    exact hsplit ▸ hlast
  · rw [List.concat_eq_append, ← List.append_assoc] at hsplit
    exact h first rest' (List.append_inj' hsplit rfl).1

/-- A segment goes on being under way until the diagnostics settle. -/
theorem underWay_or_settles (hfiles : ApartAlong setup (before ++ segment))
    (horder : InOrder setup (before ++ segment)) (hundisturbed : Undisturbed setup uri before segment)
    (hcheck : (run before (Relay.new setup)).check? uri = some c) (hawaited : c.outstanding ≠ [])
    (hclean : Clean setup.categories c) :
    UnderWayAlong uri c segment (run before (Relay.new setup)) ∨
      SettlesWithin setup uri c before segment := by
  have hsound := sound_run setup before
  induction segment using List.reverseRecOn with
  | nil =>
    refine .inl fun first rest hsplit => ?_
    obtain ⟨rfl, -⟩ := List.append_eq_nil_iff.mp hsplit.symm
    refine ⟨⟨c, hcheck, hawaited, (setup_run setup before).symm ▸ hclean, rfl, rfl⟩, rfl,
      (hsound.states uri c hcheck).patient, ?_⟩
    simp [since, notifications]
  | append_singleton segment m ih =>
    rw [← List.append_assoc] at hfiles horder
    have hbefore : Undisturbed setup uri before segment := by
      rintro first m' rest rfl
      exact hundisturbed first m' (rest ++ [m]) (by simp)
    rcases ih hfiles.of_append horder.of_snoc.1 hbefore with halong | ⟨first, m', rest, rfl, h⟩
    · have hway := halong segment [] (List.append_nil _).symm
      obtain ⟨c', hcheck', hawaited', hclean', -⟩ := hway.record
      have hrun : run segment (run before (Relay.new setup)) =
          run (before ++ segment) (Relay.new setup) := (run_append ..).symm
      rw [hrun] at hcheck'
      obtain ⟨e, hpursued⟩ :=
        exists_pursued (sound_run setup _) (traced_run setup _) hcheck' hawaited'
      have hstride := stride_perform hfiles.of_append horder (hundisturbed segment m [] rfl) hpursued
        (setup_run setup before ▸ hclean')
      rw [run_snoc, ← hrun] at hstride
      rw [← hrun] at hcheck'
      rcases hway.stride hsound hcheck' hstride with hway' | ⟨hdone, hnone, hdue, hsettled, hle⟩
      · exact .inl (halong.snoc hway')
      · refine .inr ⟨segment, m, [], rfl, halong, ⟨?_, ?_, c', e, hpursued, ?_, ?_⟩, hle⟩
        all_goals rw [← hrun]
        · exact hdone
        · rw [run_snoc, ← hrun]
          exact hnone
        · rw [hrun] at hdue ⊢
          exact hdue
        · rw [run_snoc, ← hrun]
          exact hsettled
    · exact .inr ⟨first, m', rest ++ [m], by simp, h⟩

/-- **Progress under checks that are cut short.** Where parts are awaited for a document
and what was collected of them settles, an undisturbed segment leaves the generation
under way, or its diagnostics settle within it. They settle at the latest when as many
checks are cut short as there are retries left, and one. Documents open at the
same time are of different files, and news in the order of the analysis server. -/
theorem progress (setup : Setup) (uri : String) (before segment : List Move) (c : CheckState)
    (hfiles : ApartAlong setup (before ++ segment))
    (horder : InOrder setup (before ++ segment)) (hundisturbed : Undisturbed setup uri before segment)
    (hcheck : (run before (Relay.new setup)).check? uri = some c) (hawaited : c.outstanding ≠ [])
    (hclean : Clean setup.categories c) :
    (UnderWayAlong uri c segment (run before (Relay.new setup)) ∨
      SettlesWithin setup uri c before segment) ∧
    (maxRetries < c.retries + (cutShort uri segment (run before (Relay.new setup))).length →
      SettlesWithin setup uri c before segment) := by
  have hone := underWay_or_settles hfiles horder hundisturbed hcheck hawaited hclean
  refine ⟨hone, fun hcut => hone.resolve_left fun halong => ?_⟩
  have hway := halong segment [] (List.append_nil _).symm
  have hbounded := hway.bounded
  rw [hway.cut] at hcut
  omega

/-- The check a call waits for is cut short, another call joins, and both repetitions are
cut short as well. -/
def cutThrice : List Move :=
  [checkOver 2, .requestCheck "file:///a.ts" 8, checkOver 3, checkOver 4]

/-- Both calls are released within that. -/
theorem progress_cutThrice :
    ApartAlong syntaxOnly (oneWaiting ++ cutThrice) ∧
    InOrder syntaxOnly (oneWaiting ++ cutThrice) ∧
    Undisturbed syntaxOnly "file:///a.ts" oneWaiting cutThrice ∧
    (run oneWaiting (Relay.new syntaxOnly)).check? "file:///a.ts" = some waitingState ∧
    waitingState.outstanding ≠ [] ∧ Clean syntaxOnly.categories waitingState ∧
    SettlesWithin syntaxOnly "file:///a.ts" waitingState oneWaiting cutThrice := by
  have hfiles : ApartAlong syntaxOnly (oneWaiting ++ cutThrice) :=
    apartAlong_of_single fun u hu => List.mem_singleton.mp hu
  have horder : InOrder syntaxOnly (oneWaiting ++ cutThrice) := by
    have hwaiting : InOrder syntaxOnly oneWaiting :=
      (InOrder.nil.without_news (m := oneWaiting[0]) rfl).without_news (m := oneWaiting[1]) rfl
    have hjoined : InOrder syntaxOnly (oneWaiting ++ [checkOver 2] ++ [cutThrice[1]]) :=
      (hwaiting.checkOver "/a.ts" rfl).without_news rfl
    exact (hjoined.checkOver "/a.ts" rfl).checkOver "/a.ts" rfl
  have hundisturbed : Undisturbed syntaxOnly "file:///a.ts" oneWaiting cutThrice := by
    rintro first m rest hsplit
    have hmem : m ∈ cutThrice := hsplit ▸ by simp
    have hcases : m = .requestCheck "file:///a.ts" 8 ∨ ∃ seq, m = checkOver seq := by
      simp only [cutThrice, List.mem_cons, List.not_mem_nil, or_false] at hmem
      rcases hmem with rfl | rfl | rfl | rfl
      · exact .inr ⟨_, rfl⟩
      · exact .inl rfl
      · exact .inr ⟨_, rfl⟩
      · exact .inr ⟨_, rfl⟩
    rcases hcases with rfl | ⟨seq, rfl⟩
    · exact ⟨nofun, id, fun _ _ _ _ hnews => (nomatch hnews)⟩
    · refine ⟨nofun, id, fun file category items _ hnews => ?_⟩
      have hover : (checkOver seq).news? = some (.completed seq) := rfl
      cases hover.symm.trans hnews
  have hcheck : (run oneWaiting (Relay.new syntaxOnly)).check? "file:///a.ts" =
      some waitingState := rfl
  have hawaited : waitingState.outstanding ≠ [] := List.cons_ne_nil _ _
  have hclean : Clean syntaxOnly.categories waitingState := clean_of_nothing_merged _ rfl
  have hcut : cutShort "file:///a.ts" cutThrice (run oneWaiting (Relay.new syntaxOnly)) =
      [2, 3, 4] := rfl
  refine ⟨hfiles, horder, hundisturbed, hcheck, hawaited, hclean,
    (progress syntaxOnly "file:///a.ts" oneWaiting cutThrice waitingState hfiles horder
      hundisturbed hcheck hawaited hclean).2 ?_⟩
  rw [hcut]
  decide

end Relay

end LanguageRelay
