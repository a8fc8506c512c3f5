import LanguageRelay.Proofs.Checks.Sound
/-!
# How a generation ends

A generation ends with its last part, or with a completion when its retries
are used up. What was collected by then is converted entry by entry. **The
end is clean exactly if every entry converts or is skipped**
(`clean_end_iff`): then one notification holds the entries that convert, in
order, and every waiter is released. Any other entry makes the end fail, and
then nothing is published and no waiter released, although the waiters are
taken off the record (`stranded_by_a_number`).
-/

namespace LanguageRelay

namespace Diagnostic

/-- The entry converts, or it is skipped: its only fault is one of the
protocol. -/
def Settleable (entry : Json) : Prop :=
  ∀ e, ofEntry entry = .error e → ∃ fault, e = .protocol fault

/-- The diagnostics of the entries that convert, in order. -/
def convertible (entries : List Json) : List Diagnostic :=
  entries.filterMap fun entry => (ofEntry entry).toOption

/-- Entries that are settleable are converted, in order and without the
skipped ones. -/
theorem ofEntries_of_settleable {entries : List Json} (h : ∀ entry ∈ entries, Settleable entry) :
    ∃ faults, ofEntries entries = (faults, .ok (convertible entries)) := by
  induction entries with
  | nil => exact ⟨[], rfl⟩
  | cons entry rest ih =>
    obtain ⟨faults, hrest⟩ := ih fun e he => h e (List.mem_cons_of_mem _ he)
    have hentry := h entry List.mem_cons_self
    cases hof : ofEntry entry with
    | ok d =>
      refine ⟨faults, ?_⟩
      simp [ofEntries, convertible, hof, hrest, Except.map, Except.toOption]
    | error e =>
      obtain ⟨fault, rfl⟩ := hentry e hof
      refine ⟨fault :: faults, ?_⟩
      simp [ofEntries, convertible, hof, hrest, Except.toOption]

/-- One entry that is not settleable makes the conversion fail. -/
theorem ofEntries_of_not_settleable {entries : List Json}
    (h : ¬ ∀ entry ∈ entries, Settleable entry) :
    ∃ faults e, ofEntries entries = (faults, .error e) := by
  induction entries with
  | nil => simp at h
  | cons entry rest ih =>
    cases hof : ofEntry entry with
    | ok d =>
      have hentry : Settleable entry := fun e he => by simp [hof] at he
      obtain ⟨faults, e, hrest⟩ := ih fun hall =>
        h fun x hx => (List.mem_cons.mp hx).elim (fun heq => heq ▸ hentry) (hall x)
      exact ⟨faults, e, by simp [ofEntries, hof, hrest, Except.map]⟩
    | error e =>
      cases e with
      | protocol fault =>
        have hentry : Settleable entry := fun e he => by
          rw [hof] at he
          exact ⟨fault, (Except.error.inj he).symm⟩
        obtain ⟨faults, e, hrest⟩ := ih fun hall =>
          h fun x hx => (List.mem_cons.mp hx).elim (fun heq => heq ▸ hentry) (hall x)
        exact ⟨fault :: faults, e, by simp [ofEntries, hof, hrest]⟩
      | _ => exact ⟨[], _, by rw [ofEntries, hof]⟩

end Diagnostic

/-- A line was logged. -/
def Effect.IsLog : Effect → Prop
  | .logged .. => True
  | _ => False

namespace Relay

variable {r r' : Relay} {uri : String} {c : CheckState} {event : Service.Event}

/-! ## The event that ends a generation -/

/-- **The event ends the current generation of a document**: parts were
awaited before it, and none are after it. -/
structure Ends (event : Service.Event) (r : Relay) (uri : String) (c : CheckState) : Prop where
  before : r.check? uri = some c
  awaited : c.outstanding ≠ []
  after : ∃ c', (r.handleEvent event).1.check? uri = some c' ∧ c'.outstanding = []

/-- The parts of a generation after news. -/
def News.collect (merged : List (String × List Json)) : News → List (String × List Json)
  | part _ category items => Table.put category items merged
  | completed _ => merged

/-- The entries collected of the current generation once the event has told
its part. -/
def collected (categories : List String) (event : Service.Event) (c : CheckState) : List Json :=
  mergedEntries categories ((newsOf? event).elim c.merged (News.collect c.merged))

/-- Parts were awaited for a document, and now none are. -/
def Emptied (uri : String) (r r' : Relay) : Prop :=
  ∃ c c', r.check? uri = some c ∧ c.outstanding ≠ [] ∧ r'.check? uri = some c' ∧ c'.outstanding = []

/-- Leaving all records as they are ends nothing. -/
theorem Emptied.changes (h : Emptied uri r r') : r'.checks ≠ r.checks := by
  obtain ⟨c, c', hc, hawaited, hc', hout⟩ := h
  intro hr
  rw [check?, hr] at hc'
  cases hc.symm.trans hc'
  exact hawaited hout

/-- Setting a record ends nothing unless it is the document's, and awaits
nothing. -/
theorem Emptied.of_put (h : Emptied uri r r') {u : String} {d : CheckState}
    (hr : r'.checks = Table.put u d r.checks) : u = uri ∧ d.outstanding = [] := by
  obtain ⟨c, c', hc, hawaited, hc', hout⟩ := h
  rcases check?_put_cases hr hc' with ⟨heq, rfl⟩ | ⟨-, hc'⟩
  · exact ⟨heq, hout⟩
  · cases hc.symm.trans hc'
    exact absurd hout hawaited

/-- **A generation ends by settling** what was collected, with the waiters
there were. Before that, at most log lines were written. -/
theorem Heard.settles {note : News} {failure : Option Failure} (hheard : Heard r note r' failure)
    (hsound : r.Sound) (hcheck : r.check? uri = some c) (h : Emptied uri r r') :
    ∃ r₀ d notes, (r', failure) = settle uri d r₀ ∧ r₀.sessions = r.sessions ∧
      r₀.setup = r.setup ∧ r₀.outbox = r.outbox ++ notes ∧ (∀ e ∈ notes, e.IsLog) ∧
      d.waiters = c.waiters ∧
      d.merged = News.collect c.merged note := by
  cases hheard with
  | credited => exact absurd rfl h.changes
  | unawaited => exact absurd rfl h.changes
  | outdated habandoned huri hcheck' =>
    obtain ⟨rfl, hout⟩ := h.of_put rfl
    obtain ⟨c₀, -, hc₀, hawaited, -⟩ := h
    cases hcheck'.symm.trans hc₀
    exact absurd hout hawaited
  | counted habandoned huri hcheck' hmark hcurrent hawaited hleft =>
    exact absurd (h.of_put rfl).2 hleft
  | @settled file category items e entries u d habandoned huri hcheck' =>
    obtain ⟨fresh, fx, hshape, -⟩ := settle_shape u (d.counted category items entries) r
    obtain ⟨rfl, -⟩ := h.of_put (by rw [hshape])
    cases hcheck.symm.trans hcheck'
    exact ⟨r, c.counted category items entries, [], rfl, rfl, rfl, by simp, by simp, rfl, rfl⟩
  | retired => exact absurd rfl h.changes
  | @overtaken seq u d e hfind =>
    obtain ⟨rfl, hout⟩ := h.of_put rfl
    obtain ⟨c₀, -, hc₀, hawaited, -⟩ := h
    cases (hsound.find hfind).1.symm.trans hc₀
    exact absurd hout hawaited
  | @repeated seq u d e text hfind hcurrent hawaited =>
    -- all parts are awaited again, and there were some
    have hparts := (hsound.states u d (hsound.find hfind).1).parts hawaited
    obtain ⟨-, hout⟩ := h.of_put (Table.put_put _ _ _ _)
    change r.setup.categories.eraseDups = [] at hout
    rw [hout] at hparts
    exact absurd (List.append_eq_nil_iff.mp hparts.eq_nil).1 hawaited
  | @severed seq u d e text cause hfind hcurrent hawaited =>
    exact absurd (h.of_put rfl).2 (by obtain ⟨rfl, -⟩ := h.of_put rfl; exact hawaited)
  | @exhausted seq u d e text hfind =>
    obtain ⟨fresh, fx, hshape, -⟩ :=
      settle_shape u (d.exhausted seq) ((r.retireAbandoned seq).log .warning text)
    obtain ⟨rfl, -⟩ := h.of_put (by rw [hshape]; rfl)
    cases hcheck.symm.trans (hsound.find hfind).1
    exact ⟨_, c.exhausted seq, [.logged .warning text], rfl, rfl, rfl, rfl,
      by simp [Effect.IsLog], rfl, rfl⟩

/-- The same, of an event. -/
theorem ended_by_settling (hsound : r.Sound) (hcheck : r.check? uri = some c)
    (h : Emptied uri r (r.handleEvent event).1) :
    ∃ r₀ d notes, r.handleEvent event = settle uri d r₀ ∧ r₀.sessions = r.sessions ∧
      r₀.setup = r.setup ∧ r₀.outbox = r.outbox ++ notes ∧ (∀ e ∈ notes, e.IsLog) ∧
      d.waiters = c.waiters ∧
      d.merged = (newsOf? event).elim c.merged (News.collect c.merged) := by
  rw [handleEvent_eq] at h ⊢
  cases hnews : newsOf? event with
  | none =>
    rw [hnews] at h
    exact absurd rfl h.changes
  | some note =>
    rw [hnews] at h
    exact (heard_hear note r).settles hsound hcheck h

/-! ## Clean ends -/

/-- **A clean end**: no failure, and beyond log lines one notification of
what converts, with the version of the session, then the release of every
waiter. -/
def CleanEnd (uri : String) (entries : List Json) (waiters : List Waiter) (r : Relay)
    (ended : Relay × Option Failure) : Prop :=
  ended.2 = none ∧ ∃ s notes, r.session? uri = some s ∧ (∀ e ∈ notes, e.IsLog) ∧
    ended.1.outbox = r.outbox ++ notes ++
      .published uri (Diagnostic.convertible entries) (some s.version) :: releases (.ok ()) waiters

/-- **A stranded end**: a failure, nothing but log lines, and no waiter left
that could be released later. -/
def StrandedEnd (uri : String) (r : Relay) (ended : Relay × Option Failure) : Prop :=
  ended.2 ≠ none ∧ Adds Effect.IsLog r ended.1 ∧
    ∃ c, ended.1.check? uri = some c ∧ c.waiters = []

/-- **When the end of a generation is clean.** In every reachable state, an
event that ends the generation of a document makes a clean end exactly if
every entry collected converts or is skipped. Otherwise the waiters are
stranded. -/
theorem clean_end_iff (setup : Setup) (moves : List Move) (event : Service.Event) (uri : String)
    (c : CheckState) (hends : Ends event (run moves (Relay.new setup)) uri c) :
    (CleanEnd uri (collected setup.categories event c) c.waiters (run moves (Relay.new setup))
        ((run moves (Relay.new setup)).handleEvent event) ↔
      ∀ entry ∈ collected setup.categories event c, Diagnostic.Settleable entry) ∧
    ((¬ ∀ entry ∈ collected setup.categories event c, Diagnostic.Settleable entry) →
      StrandedEnd uri (run moves (Relay.new setup))
        ((run moves (Relay.new setup)).handleEvent event)) := by
  have hsound := sound_run setup moves
  have hsetup := setup_run setup moves
  generalize run moves (Relay.new setup) = r at hends hsound hsetup ⊢
  obtain ⟨hcheck, hawaited, c', hc', hout⟩ := hends
  obtain ⟨s, hopen, -⟩ := hsound.opened uri c hcheck
  obtain ⟨r₀, d, notes, hsettle, hsessions, hsetup₀, hnotes, hlogs, hwaiters, hentries⟩ :=
    ended_by_settling hsound hcheck ⟨c, c', hcheck, hawaited, hc', hout⟩
  have hopen₀ : r₀.session? uri = some s := by rwa [session?, hsessions]
  rw [hsetup] at hsetup₀
  rw [hsettle]
  by_cases hall : ∀ entry ∈ collected setup.categories event c, Diagnostic.Settleable entry
  · refine ⟨⟨fun _ => hall, fun _ => ?_⟩, fun hnot => absurd hall hnot⟩
    obtain ⟨faults, hof⟩ := Diagnostic.ofEntries_of_settleable hall
    rw [collected, ← hentries, ← hsetup₀] at hof
    rw [settle_of_ok hopen₀ hof]
    refine ⟨rfl, s, notes ++ faults.map (skipLine uri), hopen, fun e he => ?_, ?_⟩
    · rcases List.mem_append.mp he with he | he
      · exact hlogs e he
      · obtain ⟨fault, -, rfl⟩ := List.mem_map.mp he
        trivial
    · simp [hnotes, hwaiters, collected, hentries, hsetup₀]
  · -- the waiters are off the record by now, and nothing releases them
    obtain ⟨faults, e, hof⟩ := Diagnostic.ofEntries_of_not_settleable hall
    rw [collected, ← hentries, ← hsetup₀] at hof
    rw [settle_of_error hopen₀ hof]
    refine ⟨⟨fun hclean => by simp [CleanEnd] at hclean, fun h => absurd h hall⟩, fun _ => ?_⟩
    refine ⟨by simp, ⟨notes ++ faults.map (skipLine uri), by simp [hnotes], fun e he => ?_⟩,
      d.ended, by simp [check?, Table.get?_put], rfl⟩
    rcases List.mem_append.mp he with he | he
    · exact hlogs e he
    · obtain ⟨fault, -, rfl⟩ := List.mem_map.mp he
      trivial

/-- A document is opened and a call waits for its diagnostics. -/
def oneWaiting : List Move :=
  [.openDocument "file:///a.ts" "typescript" 1 "x", .requestCheck "file:///a.ts" 7]

/-- The syntax part of the check of its file. -/
def syntaxPart (items : List Json) : Service.Event :=
  ⟨0, "syntaxDiag", .obj [("file", .str "/a.ts"), ("diagnostics", .arr items)]⟩

/-- The record of its checks meanwhile. -/
def waitingState : CheckState :=
  { file := "/a.ts", generation := 1, outstanding := ["syntax"], merged := []
    inFlight := [⟨2, 1, []⟩], waiters := [⟨7, false⟩], fresh := false, retries := 0 }

theorem ends_syntaxPart (items : List Json) (hitems : items = [.obj []] ∨ items = [.int 5]) :
    Ends (syntaxPart items) (run oneWaiting (Relay.new syntaxOnly)) "file:///a.ts"
      waitingState := by
  refine ⟨rfl, by simp [waitingState], ?_⟩
  rcases hitems with rfl | rfl
  · exact ⟨{ waitingState.ended with
      outstanding := [], inFlight := [⟨2, 1, ["syntax"]⟩], fresh := true }, rfl, rfl⟩
  · exact ⟨{ waitingState.ended with
      outstanding := [], inFlight := [⟨2, 1, ["syntax"]⟩] }, rfl, rfl⟩

/-- An entry without a span is skipped, and the end is clean. -/
theorem clean_end_without_span :
    Ends (syntaxPart [.obj []]) (run oneWaiting (Relay.new syntaxOnly)) "file:///a.ts"
      waitingState ∧
    CleanEnd "file:///a.ts" [.obj []] [⟨7, false⟩] (run oneWaiting (Relay.new syntaxOnly))
      ((run oneWaiting (Relay.new syntaxOnly)).handleEvent (syntaxPart [.obj []])) := by
  have hends := ends_syntaxPart [.obj []] (.inl rfl)
  refine ⟨hends, (clean_end_iff syntaxOnly oneWaiting _ _ _ hends).1.mpr ?_⟩
  intro entry hentry e he
  cases List.mem_singleton.mp hentry
  exact ⟨.diagnosticWithoutSpan (.obj []), (Except.error.inj he).symm⟩

/-- An entry that is a number strands the call. -/
theorem stranded_by_a_number :
    Ends (syntaxPart [.int 5]) (run oneWaiting (Relay.new syntaxOnly)) "file:///a.ts"
      waitingState ∧
    ((run oneWaiting (Relay.new syntaxOnly)).handleEvent (syntaxPart [.int 5])).2 =
      some (.value .wrongType) ∧
    ((run oneWaiting (Relay.new syntaxOnly)).handleEvent (syntaxPart [.int 5])).1.outbox =
      (run oneWaiting (Relay.new syntaxOnly)).outbox ∧
    ¬ CleanEnd "file:///a.ts" [.int 5] [⟨7, false⟩] (run oneWaiting (Relay.new syntaxOnly))
      ((run oneWaiting (Relay.new syntaxOnly)).handleEvent (syntaxPart [.int 5])) := by
  have hfails : ((run oneWaiting (Relay.new syntaxOnly)).handleEvent (syntaxPart [.int 5])).2 =
      some (.value .wrongType) := rfl
  refine ⟨ends_syntaxPart [.int 5] (.inr rfl), hfails, rfl, fun hclean => ?_⟩
  have hnone := hclean.1
  rw [hfails] at hnone
  simp at hnone

end Relay

end LanguageRelay
