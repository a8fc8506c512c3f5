import LanguageRelay.Proofs.Checks.Attribution
/-!
# Requests share one check

As long as no document is edited and none of its own is closed, a document
costs at most one notification, and one check with its repetitions, however
many calls ask and whatever the analysis server tells (`coalescing`).

What may still be spent is read off the record of the document (`Allows`), and
what one move spends is one of a few turns (`Turn`). A turn pays for itself:
what it spends and what is allowed after it is no more than what was allowed
before (`Allows.turn`).
-/

namespace LanguageRelay

namespace Relay

variable {r r' r'' : Relay} {uri : String} {c : CheckState} {asks tells : Nat}

/-! ## Calm segments -/

/-- The move edits no open document and does not close `uri`, and the entries it
reports convert or are skipped. -/
structure CalmMove (uri : String) (r : Relay) (m : Move) : Prop where
  unedited : ∀ v, ¬ Edits r m v
  unclosed : m = .closeDocument uri → r.session? uri = none
  settleable : ∀ file category items, m.news? = some (.part file category items) →
    ∀ entry ∈ items, Diagnostic.Settleable entry

/-- All moves of the segment are calm where they are made. -/
def Calm (uri : String) : List Move → Relay → Prop
  | [], _ => True
  | m :: rest, r => CalmMove uri r m ∧ Calm uri rest (m.perform r).1

/-- The checks written for a document in a segment. -/
def checksAlong (uri : String) : List Move → Relay → List Service.Command
  | [], _ => []
  | m :: rest, r => checksFor uri r (m.perform r).1 ++ checksAlong uri rest (m.perform r).1

/-- **The check is written for a document** between two states: it counts among the
checks of that document, and of no other, and asks about its file. -/
structure WrittenFor (uri : String) (r r' : Relay) (command : Service.Command) : Prop where
  counted : command ∈ checksFor uri r r'
  about : ∃ c, r'.check? uri = some c ∧ command.arguments = checkArguments c.file
  alone : ∀ v, command ∈ checksFor v r r' → v = uri

/-- **No check is left uncounted**: whatever check a move writes is written for some
document. -/
theorem writtenFor_perform {m : Move} (hsound : r.Sound) (htraced : (m.perform r).1.Traced)
    {command : Service.Command} (hsent : .sent command ∈ since r (m.perform r).1)
    (hname : command.name = Service.errorCheckName) :
    ∃ uri, WrittenFor uri r (m.perform r).1 command := by
  obtain ⟨fx, hfx, haccounted⟩ := accounted_perform m hsound
  have hkept : Accounted (m.perform r).1 (.sent command) := haccounted _ (since_eq hfx ▸ hsent)
  obtain ⟨uri, c, hcheck, hmem, habout⟩ := hkept hname
  refine ⟨uri, mem_checksFor.mpr ⟨hsent, hname, hmem⟩, ⟨c, hcheck, habout⟩, fun v hv => ?_⟩
  -- the number of the check is in flight for one document alone
  obtain ⟨d, hcheck', e', he', hseq'⟩ := mem_inFlightOf.mp (mem_checksFor.mp hv).2.2
  obtain ⟨c', hcheck'', e, he, hseq⟩ := mem_inFlightOf.mp hmem
  exact htraced.apart v uri d c' hcheck' hcheck'' e' he' e he (by omega)

theorem Calm.of_append {first rest : List Move} (h : Calm uri (first ++ rest) r) :
    Calm uri first r := by
  induction first generalizing r with
  | nil => exact trivial
  | cons m first ih => exact ⟨h.1, ih h.2⟩

/-! ## What one move does for a document -/

/-- What was collected of a generation will settle. -/
def Clean (categories : List String) (c : CheckState) : Prop :=
  ∀ entry ∈ mergedEntries categories c.merged, Diagnostic.Settleable entry

theorem clean_of_nothing_merged (categories : List String) (h : c.merged = []) :
    Clean categories c := by
  simp [Clean, h, mergedEntries]

/-- A part that settles leaves what was collected clean. -/
theorem Clean.counted {categories : List String} (h : Clean categories c) {category : String}
    {items : List Json} (hitems : ∀ entry ∈ items, Diagnostic.Settleable entry)
    (entries : List InFlight) : Clean categories (c.counted category items entries) := by
  intro entry hentry
  obtain ⟨k, hk, hmem⟩ := List.mem_flatMap.mp hentry
  change entry ∈ (Table.get? k (Table.put category items c.merged)).getD [] at hmem
  rw [Table.get?_put] at hmem
  split at hmem
  · exact hitems entry hmem
  · exact h entry (List.mem_flatMap.mpr ⟨k, hk, hmem⟩)

/-- The generation of a document goes on as it was, or the connection has
closed on it. -/
structure Keeps (uri : String) (r r' : Relay) : Prop where
  shut : r.link.closed ≠ none → r'.link.closed ≠ none
  record : ∀ c, r.check? uri = some c → ∃ c', r'.check? uri = some c' ∧
    (c'.outstanding = c.outstanding ∨ c'.outstanding = [] ∧ r'.link.closed ≠ none) ∧
    c'.merged = c.merged ∧ c'.fresh = c.fresh ∧ c'.retries = c.retries

/-- **What a calm move does for one document**, with the checks and the
notifications it may spend on that. -/
inductive Turn (uri : String) (r r' : Relay) : Nat → Nat → Prop where
  | kept (h : Keeps uri r r') : Turn uri r r' 0 0
  /-- A generation begins, because a call asks. -/
  | begun {c' : CheckState} (hup : r.link.closed = none)
      (hidle : ∀ c, r.check? uri = some c → c.outstanding = [] ∧ c.fresh = false)
      (hcheck' : r'.check? uri = some c') (hawaited' : c'.outstanding ≠ [])
      (hmerged : c'.merged = []) : Turn uri r r' 1 0
  /-- A part is collected, and others are awaited still. -/
  | collected {c c' : CheckState} (hcheck : r.check? uri = some c) (hawaited : c.outstanding ≠ [])
      (hcheck' : r'.check? uri = some c') (hawaited' : c'.outstanding ≠ [])
      (hclean : Clean r.setup.categories c → Clean r.setup.categories c')
      (hretries : c'.retries = c.retries) : Turn uri r r' 0 0
  /-- The generation has ended, and what was collected is published. -/
  | published {c c' : CheckState} (hcheck : r.check? uri = some c) (hawaited : c.outstanding ≠ [])
      (hcheck' : r'.check? uri = some c') (hout : c'.outstanding = []) (hfresh : c'.fresh = true) :
      Turn uri r r' 0 1
  /-- The generation has ended with an entry that does not settle. -/
  | stranded {c : CheckState} (hcheck : r.check? uri = some c) (hawaited : c.outstanding ≠ [])
      (hdirty : ¬ Clean r.setup.categories c) : Turn uri r r' 0 0
  /-- Missing parts are asked for again. -/
  | repeated {c c' : CheckState} (hcheck : r.check? uri = some c) (hawaited : c.outstanding ≠ [])
      (hpatient : c.retries < maxRetries) (hcheck' : r'.check? uri = some c')
      (hawaited' : c'.outstanding ≠ []) (hmerged : c'.merged = [])
      (hretries : c'.retries = c.retries + 1) : Turn uri r r' 1 0

/-- The checks and the notifications spent on a document between two states are
at most so many. -/
structure Costs (uri : String) (r r' : Relay) (asks tells : Nat) : Prop where
  checks : (checksFor uri r r').length ≤ asks
  notifications : (notifications uri (since r r')).length ≤ tells

/-- A document's record that is as it was goes on as it was. -/
theorem keeps_of_check? (hcheck : r'.check? uri = r.check? uri)
    (hclosed : r'.link.closed = r.link.closed) : Keeps uri r r' where
  shut := by rw [hclosed]; exact id
  record c hc := ⟨c, by rw [hcheck, hc], .inl rfl, rfl, rfl, rfl⟩

/-- Nothing was spent where no check in flight has a later number and nothing
was published. -/
theorem costs_nothing (hnumbers : NumbersOn r r') (hle : ∀ k ∈ inFlightOf uri r', k ≤ r.link.last)
    (hadds : Adds (fun x => ¬ PublishesOf uri x) r r') : Costs uri r r' 0 0 where
  checks := by rw [checksFor_of_le hnumbers hle]; exact Nat.le_refl _
  notifications := by rw [notifications_of_adds hadds]; exact Nat.le_refl _

/-- A move that leaves the record of a document alone and does not publish for
it spends nothing on it. -/
theorem turn_spared (hsound : r.Sound) (hcheck : r'.check? uri = r.check? uri)
    (hclosed : r'.link.closed = r.link.closed) (hnumbers : NumbersOn r r')
    (hadds : Adds (fun x => ¬ PublishesOf uri x) r r') :
    ∃ asks tells, Turn uri r r' asks tells ∧ Costs uri r r' asks tells := by
  refine ⟨0, 0, .kept (keeps_of_check? hcheck hclosed), costs_nothing hnumbers ?_ hadds⟩
  rw [inFlightOf, hcheck, ← inFlightOf]
  exact hsound.inFlightOf_le uri

/-- A move that gives out no number and publishes nothing for a document spends
nothing on it. -/
theorem costs_unnumbered (hsound' : r'.Sound) (hlast : r'.link.last = r.link.last)
    (hnumbers : NumbersOn r r') (hadds : Adds (fun x => ¬ PublishesOf uri x) r r') :
    Costs uri r r' 0 0 :=
  costs_nothing hnumbers (hlast ▸ hsound'.inFlightOf_le uri) hadds

/-- A check that is written, and nothing else but log lines, is one check at
most. -/
theorem costs_one_check {notes : List Effect} {command : Service.Command}
    (houtbox : r'.outbox = r.outbox ++ (notes ++ [.sent command]))
    (hnotes : ∀ x ∈ notes, x.IsLog) : Costs uri r r' 1 0 where
  checks := length_checksFor_le_one houtbox hnotes
  notifications := by
    have hadds : Adds (fun x => ¬ PublishesOf uri x) r r' := by
      refine ⟨_, houtbox, ?_⟩
      rintro x hx ⟨diagnostics, version, rfl⟩
      rcases List.mem_append.mp hx with hx | hx
      · exact hnotes _ hx
      · simp at hx
    rw [notifications_of_adds hadds]
    exact Nat.le_refl _

/-! ## News -/

/-- Log lines and releases are no notifications. -/
theorem notifications_of_not_publishes {fx : List Effect} (h : ∀ x ∈ fx, ¬ x.Publishes) :
    notifications uri fx = [] := by
  refine List.filterMap_eq_nil_iff.mpr fun x hx => ?_
  cases x with
  | published => exact absurd trivial (h _ hx)
  | _ => rfl

/-- **A generation that settles** is published once, or it was not clean. -/
theorem turn_settle {r₀ : Relay} {d : CheckState} {s : Session} {notes : List Effect}
    (hcheck : r.check? uri = some c) (hawaited : c.outstanding ≠ [])
    (hopen : r₀.session? uri = some s) (houtbox : r₀.outbox = r.outbox ++ notes)
    (hlogs : ∀ x ∈ notes, x.IsLog) (hout : d.outstanding = [])
    (hclean : Clean r.setup.categories c → Clean r₀.setup.categories d)
    (hnumbers : NumbersOn r (r₀.settle uri d).1) (hsound' : (r₀.settle uri d).1.Sound)
    (hlast : r₀.link.last = r.link.last) :
    ∃ asks tells, Turn uri r (r₀.settle uri d).1 asks tells ∧
      Costs uri r (r₀.settle uri d).1 asks tells := by
  have hle : ∀ k ∈ inFlightOf uri (r₀.settle uri d).1, k ≤ r.link.last :=
    (last_settle uri d r₀).trans hlast ▸ hsound'.inFlightOf_le uri
  have hnotes : ∀ x ∈ notes, ¬ x.Publishes := fun x hx hpublishes => by
    have hlog := hlogs x hx
    cases x with
    | published => exact hlog
    | _ => exact hpublishes
  have hskips : ∀ faults : List ProtocolFault, ∀ x ∈ faults.map (skipLine uri), ¬ x.Publishes := by
    intro faults x hx
    obtain ⟨fault, -, rfl⟩ := List.mem_map.mp hx
    exact id
  by_cases hall : Clean r₀.setup.categories d
  · obtain ⟨faults, hentries⟩ := Diagnostic.ofEntries_of_settleable hall
    have hsettle := settle_of_ok hopen hentries
    have hrecord : (r₀.settle uri d).1.check? uri = some { d.ended with fresh := true } := by
      rw [hsettle]
      exact (Table.get?_put ..).trans (if_pos rfl)
    refine ⟨0, 1, .published hcheck hawaited hrecord hout rfl, ?_, ?_⟩
    · rw [checksFor_of_le hnumbers hle]
      exact Nat.le_refl _
    · have hfx : (r₀.settle uri d).1.outbox = r.outbox ++ (notes ++ (faults.map (skipLine uri) ++
          .published uri (Diagnostic.convertible (mergedEntries r₀.setup.categories d.merged))
            (some s.version) :: releases (.ok ()) d.waiters)) := by
        rw [hsettle, ← List.append_assoc r.outbox, ← houtbox]
      rw [since_eq hfx, notifications_append, notifications_append,
        notifications_of_not_publishes hnotes, notifications_of_not_publishes (hskips faults),
        notifications, List.filterMap_cons, notificationOf?, if_pos rfl, ← notifications,
        notifications_of_not_publishes fun x hx => (silent_releases _ _ x hx).2]
      exact Nat.le_refl _
  · obtain ⟨faults, e, hentries⟩ := Diagnostic.ofEntries_of_not_settleable hall
    refine ⟨0, 0, .stranded hcheck hawaited (mt hclean hall), costs_nothing hnumbers hle ?_⟩
    refine ⟨notes ++ faults.map (skipLine uri), ?_, fun x hx => ?_⟩
    · rw [settle_of_error hopen hentries, ← List.append_assoc, ← houtbox]
    · exact not_publishesOf_of_not_publishes ((List.mem_append.mp hx).elim (hnotes x) (hskips faults x))

/-- **Another document's generation that settles** is no turn of this one. -/
theorem turn_settle_other {u : String} {r₀ : Relay} (d : CheckState) (hu : u ≠ uri)
    (hsound : r.Sound) (hchecks : r₀.checks = r.checks) (hlink : r₀.link = r.link)
    (hadds : Adds (fun x => ¬ PublishesOf uri x) r r₀)
    (hnumbers : NumbersOn r (r₀.settle u d).1) :
    ∃ asks tells, Turn uri r (r₀.settle u d).1 asks tells ∧
      Costs uri r (r₀.settle u d).1 asks tells := by
  obtain ⟨fresh, hrecord⟩ := check?_settle u d r₀
  refine turn_spared hsound ?_ ?_ hnumbers (hadds.trans (adds_settle_other (Ne.symm hu) d r₀))
  · rw [hrecord, if_neg hu, check?, hchecks, check?]
  · rw [(leaves_settle u d r₀).closed, hlink]

/-- News that set the record of one document, publish nothing and give out no
number are a turn of that document alone. -/
theorem turn_put {u : String} {c' : CheckState} (hsound : r.Sound) (hsound' : r'.Sound)
    (hchecks : r'.checks = Table.put u c' r.checks) (hlink : r'.link = r.link)
    (houtbox : r'.outbox = r.outbox) (hown : u = uri → Turn uri r r' 0 0) :
    ∃ asks tells, Turn uri r r' asks tells ∧ Costs uri r r' asks tells := by
  have hnumbers : NumbersOn r r' := .same (Nat.le_of_eq (by rw [hlink])) houtbox
  by_cases hu : u = uri
  · exact ⟨0, 0, hown hu, costs_unnumbered hsound' (by rw [hlink]) hnumbers (.of_outbox_eq houtbox)⟩
  · exact turn_spared hsound ((check?_put hchecks uri).trans (if_neg hu)) (by rw [hlink]) hnumbers
      (.of_outbox_eq houtbox)

/-- **What news do for one document is a turn of it.** -/
theorem turn_heard (uri : String) {note : News} {failure : Option Failure}
    (hheard : Heard r note r' failure) (hsound : r.Sound) (hcategories : r.setup.categories ≠ [])
    (hitems : ∀ file category items, note = .part file category items →
      ∀ entry ∈ items, Diagnostic.Settleable entry) :
    ∃ asks tells, Turn uri r r' asks tells ∧ Costs uri r r' asks tells := by
  have hsound' := sound_heard hheard hsound
  have hnumbers := numbersOn_heard hheard
  cases hheard with
  | credited => exact turn_spared hsound rfl rfl hnumbers (.of_outbox_eq rfl)
  | unawaited => exact turn_spared hsound rfl rfl hnumbers (.of_outbox_eq rfl)
  | retired => exact turn_spared hsound rfl rfl hnumbers (.of_outbox_eq rfl)
  | @outdated file category items e entries u c habandoned huri hcheck =>
    refine turn_put hsound hsound' rfl rfl rfl ?_
    rintro rfl
    refine .kept ⟨id, fun d hd => ?_⟩
    cases hcheck.symm.trans hd
    exact ⟨_, (check?_setCheck ..).trans (if_pos rfl), .inl rfl, rfl, rfl, rfl⟩
  | @overtaken seq u c e hfind =>
    refine turn_put hsound hsound' rfl rfl rfl ?_
    rintro rfl
    refine .kept ⟨id, fun d hd => ?_⟩
    cases (hsound.find hfind).1.symm.trans hd
    exact ⟨_, (check?_setCheck ..).trans (if_pos rfl), .inl rfl, rfl, rfl, rfl⟩
  | @counted file category items e entries u c habandoned huri hcheck hmark hcurrent hawaited
      hleft =>
    refine turn_put hsound hsound' rfl rfl rfl ?_
    rintro rfl
    exact .collected hcheck (List.ne_nil_of_mem hawaited) ((check?_setCheck ..).trans (if_pos rfl))
      hleft (fun hclean => hclean.counted (hitems _ _ _ rfl) entries) rfl
  | @settled file category items e entries u c habandoned huri hcheck hmark hcurrent hawaited
      hleft =>
    by_cases hu : u = uri
    · subst hu
      obtain ⟨s, hopen, -⟩ := hsound.opened u c hcheck
      exact turn_settle hcheck (List.ne_nil_of_mem hawaited) hopen (List.append_nil _).symm (by simp)
        hleft (fun hclean => hclean.counted (hitems _ _ _ rfl) entries) hnumbers hsound' rfl
    · exact turn_settle_other _ hu hsound rfl rfl (.refl _ r) hnumbers
  | @severed seq u c e text cause hfind hcurrent hawaited hpatient hrefused =>
    simp [hsound.taken (hsound.find hfind).1 hawaited] at hrefused
  | @exhausted seq u c e text hfind hcurrent hawaited =>
    by_cases hu : u = uri
    · subst hu
      have hcheck := (hsound.find hfind).1
      obtain ⟨s, hopen, -⟩ := hsound.opened u c hcheck
      have houtbox : ((r.retireAbandoned seq).log .warning text).outbox =
          r.outbox ++ [.logged .warning text] := rfl
      exact turn_settle hcheck hawaited hopen houtbox (by simp [Effect.IsLog]) rfl id hnumbers
        hsound' rfl
    · exact turn_settle_other _ hu hsound rfl rfl
        ⟨[.logged .warning text], rfl, by simp [PublishesOf]⟩ hnumbers
  | @repeated seq u c e text hfind hcurrent hawaited hpatient hup =>
    have hcheck := (hsound.find hfind).1
    have houtbox : ((((r.completed seq u c).log .info text).wrote c.file).setCheck u
        ((c.again seq).asked r.setup.categories r.nextSeq)).outbox =
          r.outbox ++ ([.logged .info text] ++ [.sent ⟨(r.nextSeq : Nat), Service.errorCheckName,
            checkArguments c.file⟩]) := by
      simp [wrote, emit, log, completed, setCheck, retireAbandoned, takeSeq, nextSeq]
    by_cases hu : u = uri
    · subst hu
      refine ⟨1, 0, .repeated hcheck hawaited hpatient ((check?_setCheck ..).trans (if_pos rfl))
        (CheckState.asked_awaits hcategories _ _) rfl rfl,
        costs_one_check houtbox (by simp [Effect.IsLog])⟩
    · refine turn_spared hsound ?_ rfl hnumbers ⟨_, houtbox, by simp [PublishesOf]⟩
      rw [check?_setCheck, if_neg hu]
      exact (check?_setCheck ..).trans (if_neg hu)

/-! ## Moves -/

/-- What is quiet does nothing more for a document. -/
theorem Turn.quiet (h : Turn uri r r' asks tells) (hq : Quiet r' r'') :
    Turn uri r r'' asks tells := by
  have hcheck := hq.check? uri
  cases h with
  | kept h =>
    refine .kept ⟨fun hne => hq.closed.symm ▸ h.shut hne, fun c hc => ?_⟩
    obtain ⟨c', hc', hrecord⟩ := h.record c hc
    exact ⟨c', hcheck.trans hc', hq.closed.symm ▸ hrecord⟩
  | begun hup hidle hcheck' => exact .begun hup hidle (hcheck.trans hcheck') ‹_› ‹_›
  | collected hc hawaited hcheck' => exact .collected hc hawaited (hcheck.trans hcheck') ‹_› ‹_› ‹_›
  | published hc hawaited hcheck' => exact .published hc hawaited (hcheck.trans hcheck') ‹_› ‹_›
  | stranded hc hawaited hdirty => exact .stranded hc hawaited hdirty
  | repeated hc hawaited hpatient hcheck' =>
    exact .repeated hc hawaited hpatient (hcheck.trans hcheck') ‹_› ‹_› ‹_›

/-- And it spends nothing more. -/
theorem Costs.quiet (h : Costs uri r r' asks tells) (hnumbers : NumbersOn r r')
    (hq : Quiet r' r'') : Costs uri r r'' asks tells where
  checks := by rw [checksFor_quiet uri hnumbers hq]; exact h.checks
  notifications := by rw [notifications_quiet uri hnumbers hq]; exact h.notifications

/-- A call that asks begins a generation for its own document, or none. -/
theorem turn_asking {u : String} {waiter : Nat} {result : Except Failure Bool}
    (hasking : Asking u waiter r r' result) (hnumbers : NumbersOn r r') (hsound : r.Sound)
    (hcategories : r.setup.categories ≠ []) :
    ∃ asks tells, Turn uri r r' asks tells ∧ Costs uri r r' asks tells := by
  cases hasking with
  | unopened => exact turn_spared hsound rfl rfl hnumbers (.refl _ _)
  | current => exact turn_spared hsound rfl rfl hnumbers (.refl _ _)
  | @joined c hcheck hawaited =>
    have hrecord := check?_addWaiter u waiter r uri
    refine ⟨0, 0, .kept ⟨id, fun d hd => ?_⟩, costs_nothing hnumbers ?_ (.of_outbox_eq rfl)⟩
    · rw [hrecord, hd]
      split
      · exact ⟨_, rfl, .inl rfl, rfl, rfl, rfl⟩
      · exact ⟨d, rfl, .inl rfl, rfl, rfl, rfl⟩
    · have hsame : inFlightOf uri (r.addWaiter u waiter) = inFlightOf uri r := by
        rw [inFlightOf, hrecord, inFlightOf]
        split
        · cases r.check? uri <;> rfl
        · rfl
      exact hsame ▸ hsound.inFlightOf_le uri
  | @refused r₁ c file cause henrolled hclosed =>
    have hrecord : ∀ d, r.check? uri = some d → r₁.check? uri = some d := by
      intro d hd
      rw [henrolled.records]
      split
      · rename_i hu
        subst hu
        exact henrolled.before.elim (fun h => h.symm.trans hd) fun h => by simp [h.1] at hd
      · exact hd
    have hle : ∀ k ∈ inFlightOf uri r₁, k ≤ r.link.last := by
      intro k hk
      rw [inFlightOf, henrolled.records] at hk
      split at hk
      · rename_i hu
        subst hu
        rcases henrolled.before with h | ⟨-, rfl⟩
        · exact hsound.inFlightOf_le u k (by rw [inFlightOf, h]; exact hk)
        · simp [CheckState.new] at hk
      · exact hsound.inFlightOf_le uri k hk
    refine ⟨0, 0, .kept ⟨fun h => ?_, fun d hd => ⟨d, hrecord d hd, .inl rfl, rfl, rfl, rfl⟩⟩,
      costs_nothing hnumbers hle (.of_outbox_eq henrolled.outbox)⟩
    change r₁.link.closed ≠ none
    rwa [henrolled.link]
  | @begun r₁ c file henrolled hout hfresh htaken =>
    have hrecord := check?_begun henrolled r.setup.categories r.nextSeq waiter uri
    have houtbox : (((r₁.wrote c.file).setCheck u (c.asked r.setup.categories r.nextSeq)).addWaiter u
        waiter).outbox = r.outbox ++ ([] ++ [.sent ⟨(r₁.nextSeq : Nat), Service.errorCheckName,
          checkArguments c.file⟩]) := by
      rw [← henrolled.outbox]
      rfl
    by_cases hu : u = uri
    · subst hu
      refine ⟨1, 0, .begun (Link.closed_of_taken htaken) (fun d hd => ?_)
        (hrecord.trans (if_pos rfl)) (CheckState.asked_awaits hcategories r.nextSeq c) rfl,
        costs_one_check houtbox (by simp)⟩
      rcases henrolled.before with h | ⟨h, -⟩
      · cases h.symm.trans hd
        exact ⟨hout, hfresh⟩
      · simp [h] at hd
    · refine turn_spared hsound (hrecord.trans (if_neg hu)) ?_ hnumbers
        ⟨_, houtbox, by simp [PublishesOf]⟩
      change r₁.link.closed = r.link.closed
      rw [henrolled.link]

/-- **What a calm move does for a document is a turn of it.** -/
theorem turn_perform {m : Move} (hcalm : CalmMove uri r m) (hsound : r.Sound)
    (hcategories : r.setup.categories ≠ []) :
    ∃ asks tells, Turn uri r (m.perform r).1 asks tells ∧
      Costs uri r (m.perform r).1 asks tells := by
  have hkey : ∀ u s, r.session? u = some s → s.uri = u := fun u s hs => (hsound.filed u s hs).1
  have hnumbers := numbersOn_perform m hkey
  have hunpublished : ∀ x : Effect, ¬ x.OfChecks → ¬ PublishesOf uri x := by
    rintro x hx ⟨diagnostics, version, rfl⟩
    exact hx trivial
  have hamended : ∀ r₁, Amends r r₁ → (m.perform r).1 = r₁ →
      ∃ asks tells, Turn uri r (m.perform r).1 asks tells ∧
        Costs uri r (m.perform r).1 asks tells := by
    rintro r₁ hamends rfl
    exact turn_spared hsound (by rw [check?, hamends.checks, check?]) hamends.closed hnumbers
      (hamends.adds.mono hunpublished)
  cases hnews : m.news? with
  | some note =>
    obtain ⟨asks, tells, hturn, hcosts⟩ := turn_heard uri (heard_hear note r) hsound
      hcategories fun file category items heq => hcalm.settleable file category items (heq ▸ hnews)
    have hq := (perform_of_news hnews r).1
    exact ⟨asks, tells, hturn.quiet hq, hcosts.quiet (numbersOn_heard (heard_hear note r)) hq⟩
  | none =>
    have hincidental : m.Incidental → ∃ asks tells, Turn uri r (m.perform r).1 asks tells ∧
        Costs uri r (m.perform r).1 asks tells :=
      fun hm => hamended _ (quiet_perform hm hnews r).amends rfl
    cases m with
    | openDocument u languageId version content =>
      obtain ⟨r₁, -, hamends, ⟨-, hopen, htaken⟩ | ⟨heq, -⟩⟩ :=
        openDocument_split (List.mem_singleton_self u) languageId version content r
      · exact absurd (.reopened hopen (Link.closed_of_taken htaken)) (hcalm.unedited u)
      · exact hamended r₁ hamends heq
    | changeDocument u version changes =>
      refine hamended r (Quiet.refl r).amends (changeDocument_of_not_open ?_ version changes)
      exact not_not.mp fun hopen => hcalm.unedited u (.changed hopen)
    | closeDocument u =>
      cases hopen : r.session? u with
      | none => exact hamended r (Quiet.refl r).amends (closeDocument_of_not_open hopen)
      | some s =>
        have hu : u ≠ uri := by
          rintro rfl
          simp [hcalm.unclosed rfl] at hopen
        have hq := quiet_closeDocument hopen
        refine turn_spared hsound ?_ (hq.closed.trans (by rw [link_forget])) hnumbers ?_
        · exact (hq.check? uri).trans ((check?_forget ..).trans (if_neg hu))
        · refine Adds.trans ?_ (hq.adds.mono hunpublished)
          exact (adds_forget u { r with sessions := Table.erase u r.sessions }).mono
            fun _ hx => not_publishesOf_of_not_publishes hx.2
    | requestCheck u waiter =>
      exact turn_asking (asking_requestCheck u waiter r) hnumbers hsound hcategories
    | withdrawWaiter waiter =>
      refine ⟨0, 0, .kept ⟨id, fun c hc => ?_⟩, costs_unnumbered (sound_perform _ hsound) rfl hnumbers
        (.of_outbox_eq rfl)⟩
      exact ⟨_, (check?_mapChecks ..).trans (congrArg _ hc), .inl rfl, rfl, rfl, rfl⟩
    | disconnect cause =>
      by_cases hup : r.link.closed = none
      · have hsevered := disconnect_of_open hup cause
        have hclosed : (r.disconnect cause).link.closed ≠ none := by simp [hsevered]
        refine ⟨0, 0, .kept ⟨fun _ => hclosed, fun c hc => ?_⟩,
          costs_unnumbered (sound_perform _ hsound) ?_ hnumbers
            ((adds_disconnect hup cause).mono fun _ hx => not_publishesOf_of_not_publishes hx.2)⟩
        · refine ⟨c.severed, ?_, .inr ⟨rfl, hclosed⟩, rfl, rfl, rfl⟩
          change (r.disconnect cause).check? uri = some c.severed
          rw [hsevered]
          exact (check?_mapChecks ..).trans (congrArg _ hc)
        · change (r.disconnect cause).link.last = r.link.last
          rw [hsevered]
      · exact hamended r (Quiet.refl r).amends (disconnect_of_closed hup cause)
    | _ => exact hincidental trivial

/-! ## What is left -/

/-- **What may still be spent on a document**: checks, and notifications. -/
inductive Allows (uri : String) (r : Relay) : Nat → Nat → Prop where
  | unspent : Allows uri r (1 + maxRetries) 1
  /-- A generation runs, and can only be asked for again. -/
  | running {c : CheckState} (hcheck : r.check? uri = some c) (hawaited : c.outstanding ≠ [])
      (hclean : Clean r.setup.categories c) : Allows uri r (maxRetries - c.retries) 1
  | shut (hclosed : r.link.closed ≠ none) : Allows uri r 0 1
  /-- What is published is current. -/
  | settled {c : CheckState} (hcheck : r.check? uri = some c) (hout : c.outstanding = [])
      (hfresh : c.fresh = true) : Allows uri r 0 0

/-- While parts are awaited, all may be left or the generation runs. -/
theorem Allows.awaited {asksLeft tellsLeft : Nat} (h : Allows uri r asksLeft tellsLeft)
    (hsound : r.Sound) (hcheck : r.check? uri = some c) (hawaited : c.outstanding ≠ []) :
    asksLeft = 1 + maxRetries ∧ tellsLeft = 1 ∨
      asksLeft = maxRetries - c.retries ∧ tellsLeft = 1 ∧ Clean r.setup.categories c := by
  cases h with
  | unspent => exact .inl ⟨rfl, rfl⟩
  | running hcheck₀ _ hclean =>
    cases hcheck.symm.trans hcheck₀
    exact .inr ⟨rfl, rfl, hclean⟩
  | shut hclosed => exact absurd (hsound.up hcheck hawaited) hclosed
  | settled hcheck₀ hout =>
    cases hcheck.symm.trans hcheck₀
    exact absurd hout hawaited

/-- **A turn pays for itself.** -/
theorem Allows.turn {asksLeft tellsLeft : Nat} (h : Allows uri r asksLeft tellsLeft)
    (hturn : Turn uri r r' asks tells) (hsound : r.Sound) (hsetup : r'.setup = r.setup) :
    ∃ asksLeft' tellsLeft', Allows uri r' asksLeft' tellsLeft' ∧
      asks + asksLeft' ≤ asksLeft ∧ tells + tellsLeft' ≤ tellsLeft := by
  have hnothing : ∀ {c' : CheckState}, c'.merged = [] → Clean r'.setup.categories c' :=
    clean_of_nothing_merged _
  cases hturn with
  | kept hkeeps =>
    cases h with
    | unspent => exact ⟨_, _, .unspent, by omega, by omega⟩
    | running hcheck hawaited hclean =>
      obtain ⟨c', hcheck', hout, hmerged, -, hretries⟩ := hkeeps.record _ hcheck
      rcases hout with hout | ⟨-, hclosed⟩
      · refine ⟨_, _, .running hcheck' (hout ▸ hawaited) ?_, by omega, by omega⟩
        rwa [Clean, hmerged, hsetup]
      · exact ⟨_, _, .shut hclosed, by omega, by omega⟩
    | shut hclosed => exact ⟨_, _, .shut (hkeeps.shut hclosed), by omega, by omega⟩
    | settled hcheck hnone hfresh =>
      obtain ⟨c', hcheck', hout, -, hfresh', -⟩ := hkeeps.record _ hcheck
      refine ⟨_, _, .settled hcheck' ?_ (hfresh'.trans hfresh), by omega, by omega⟩
      exact hout.elim (·.trans hnone) And.left
  | begun hup hidle hcheck' hawaited' hmerged =>
    -- a generation begins only where nothing is awaited and nothing current
    cases h with
    | unspent => exact ⟨_, _, .running hcheck' hawaited' (hnothing hmerged), by omega, by omega⟩
    | running hcheck hawaited => exact absurd (hidle _ hcheck).1 hawaited
    | shut hclosed => exact absurd hup hclosed
    | settled hcheck hout hfresh => simp [(hidle _ hcheck).2] at hfresh
  | collected hcheck hawaited hcheck' hawaited' hclean hretries =>
    obtain ⟨rfl, rfl⟩ | ⟨rfl, rfl, hclean₀⟩ := h.awaited hsound hcheck hawaited
    · exact ⟨_, _, .unspent, by omega, by omega⟩
    · exact ⟨_, _, .running hcheck' hawaited' (hsetup ▸ hclean hclean₀), by omega, by omega⟩
  | published hcheck hawaited hcheck' hout hfresh =>
    obtain ⟨rfl, rfl⟩ | ⟨rfl, rfl, -⟩ := h.awaited hsound hcheck hawaited
    all_goals exact ⟨_, _, .settled hcheck' hout hfresh, by omega, by omega⟩
  | stranded hcheck hawaited hdirty =>
    obtain ⟨rfl, rfl⟩ | ⟨-, -, hclean⟩ := h.awaited hsound hcheck hawaited
    · exact ⟨_, _, .unspent, by omega, by omega⟩
    · exact absurd hclean hdirty
  | repeated hcheck hawaited hpatient hcheck' hawaited' hmerged hretries =>
    obtain ⟨rfl, rfl⟩ | ⟨rfl, rfl, -⟩ := h.awaited hsound hcheck hawaited
    all_goals exact ⟨_, _, .running hcheck' hawaited' (hnothing hmerged), by omega, by omega⟩

/-! ## Segments -/

theorem run_append (moves moves' : List Move) (r : Relay) :
    run (moves ++ moves') r = run moves' (run moves r) :=
  List.foldl_append

/-- **A calm segment spends no more than was allowed before it.** -/
theorem Allows.run {segment : List Move} {asksLeft tellsLeft : Nat}
    (h : Allows uri r asksLeft tellsLeft) (hcalm : Calm uri segment r) (hsound : r.Sound)
    (hcategories : r.setup.categories ≠ []) :
    ∃ asksLeft' tellsLeft', Allows uri (Relay.run segment r) asksLeft' tellsLeft' ∧
      (checksAlong uri segment r).length + asksLeft' ≤ asksLeft ∧
      (notifications uri (since r (Relay.run segment r))).length + tellsLeft' ≤ tellsLeft := by
  induction segment generalizing r asksLeft tellsLeft with
  | nil =>
    refine ⟨_, _, h, by simp [checksAlong], ?_⟩
    simp [since, notifications]
  | cons m rest ih =>
    obtain ⟨hmove, hrest⟩ := hcalm
    have hsetup := setup_perform m hsound.toKept
    have hsound' := sound_perform m hsound
    obtain ⟨asks, tells, hturn, hchecks, hnotifications⟩ := turn_perform hmove hsound hcategories
    obtain ⟨asksLeft₁, tellsLeft₁, hallows, hasks, htells⟩ := h.turn hturn hsound hsetup
    obtain ⟨asksLeft', tellsLeft', hallows', hasks', htells'⟩ :=
      ih hallows hrest hsound' (hsetup ▸ hcategories)
    have hsince := since_trans (numbersOn_perform m fun u s hs => (hsound.filed u s hs).1)
      (numbersOn_run rest hsound')
    refine ⟨_, _, hallows', ?_, ?_⟩
    · rw [checksAlong, List.length_append]
      omega
    · change (notifications uri (since r (Relay.run rest (m.perform r).1))).length + _ ≤ _
      rw [hsince, notifications_append, List.length_append]
      omega

/-- While what is published is current, a call returns at once, and all is as
it was. -/
theorem requestCheck_of_current (hsound : r.Sound) (hcheck : r.check? uri = some c)
    (hout : c.outstanding = []) (hfresh : c.fresh = true) (waiter : Nat) :
    r.requestCheck uri waiter = (r, .ok false) := by
  obtain ⟨s, hopen, -⟩ := hsound.opened uri c hcheck
  simp [requestCheck, enroll, hopen, hcheck, hout, hfresh]

/-- **Coalescing.** In a segment of a run in which no document is edited and
`uri` is not closed, at most one notification is published for `uri`, and at
most one check is written for it and asked for again as often as a check may
be; and no check escapes the count, since every one that a move of the segment writes
is written for one document. From the notification on, a call that asks for its
diagnostics returns at once and leaves all as it is. -/
theorem coalescing (setup : Setup) (hcategories : setup.categories ≠ []) (uri : String)
    (before segment : List Move) (hcalm : Calm uri segment (run before (Relay.new setup))) :
    (notifications uri (since (run before (Relay.new setup))
        (run (before ++ segment) (Relay.new setup)))).length ≤ 1 ∧
    (checksAlong uri segment (run before (Relay.new setup))).length ≤ 1 + maxRetries ∧
    (∀ first m rest, segment = first ++ m :: rest → ∀ command,
      .sent command ∈ since (run (before ++ first) (Relay.new setup))
        (m.perform (run (before ++ first) (Relay.new setup))).1 →
      command.name = Service.errorCheckName →
      ∃ v, WrittenFor v (run (before ++ first) (Relay.new setup))
        (m.perform (run (before ++ first) (Relay.new setup))).1 command) ∧
    ∀ first rest, segment = first ++ rest →
      notifications uri (since (run before (Relay.new setup))
        (run (before ++ first) (Relay.new setup))) ≠ [] →
      ∀ waiter, (run (before ++ first) (Relay.new setup)).requestCheck uri waiter =
        (run (before ++ first) (Relay.new setup), .ok false) := by
  have hsound := sound_run setup before
  have hall : (run before (Relay.new setup)).setup.categories ≠ [] :=
    (setup_run setup before).symm ▸ hcategories
  refine ⟨?_, ?_, fun first m rest _ command hsent hname => ?_, ?_⟩
  · obtain ⟨-, tellsLeft, -, -, htells⟩ := Allows.unspent.run hcalm hsound hall
    rw [run_append]
    omega
  · obtain ⟨asksLeft, -, -, hasks, -⟩ := Allows.unspent.run hcalm hsound hall
    omega
  · exact writtenFor_perform (sound_run setup _)
      (traced_perform m (sound_run setup _) (traced_run setup _)) hsent hname
  · rintro first rest rfl hpublished waiter
    have hsound' : (run (before ++ first) (Relay.new setup)).Sound := sound_run setup _
    rw [run_append] at hpublished hsound' ⊢
    obtain ⟨asksLeft, tellsLeft, hallows, -, htells⟩ :=
      Allows.unspent.run hcalm.of_append hsound hall
    have hspent : tellsLeft = 0 := by
      have := List.length_pos_iff.mpr hpublished
      omega
    -- no notification is left only where what is published is current
    cases hallows with
    | settled hcheck hout hfresh => exact requestCheck_of_current hsound' hcheck hout hfresh waiter
    | _ => simp at hspent

/-- A call asks, and so does another while the check runs. -/
def backToBack : List Move :=
  [.requestCheck "file:///a.ts" 7, .requestCheck "file:///a.ts" 8, nothingAmiss]

/-- A move that is no edit, no closing and no report is calm. -/
theorem calmMove_of_unedited {m : Move} (hm : m.edited? = none) (hnews : m.news? = none) :
    CalmMove uri r m where
  unedited v hedits := by simp [hedits.edited?] at hm
  unclosed heq := by simp [heq, Move.edited?] at hm
  settleable file category items heq := by simp [hnews] at heq

theorem calm_backToBack :
    Calm "file:///a.ts" backToBack (run [.openDocument "file:///a.ts" "typescript" 1 "x"]
      (Relay.new syntaxOnly)) := by
  refine ⟨calmMove_of_unedited rfl rfl, calmMove_of_unedited rfl rfl,
    ⟨fun v hedits => (nomatch hedits), fun heq => (nomatch heq),
      fun file category items heq => ?_⟩, trivial⟩
  have hnone : nothingAmiss.news? = some (.part "/a.ts" "syntax" []) := rfl
  cases hnone.symm.trans heq
  simp

/-- The two calls share a check, and a third returns at once. -/
theorem coalescing_backToBack :
    Calm "file:///a.ts" backToBack (run [.openDocument "file:///a.ts" "typescript" 1 "x"]
      (Relay.new syntaxOnly)) ∧
    (run (.openDocument "file:///a.ts" "typescript" 1 "x" :: backToBack)
        (Relay.new syntaxOnly)).requestCheck "file:///a.ts" 9 =
      (run (.openDocument "file:///a.ts" "typescript" 1 "x" :: backToBack)
        (Relay.new syntaxOnly), .ok false) :=
  ⟨calm_backToBack, (coalescing syntaxOnly (by decide) "file:///a.ts"
    [.openDocument "file:///a.ts" "typescript" 1 "x"] backToBack calm_backToBack).2.2.2 backToBack []
    rfl (List.cons_ne_nil _ _) 9⟩

/-- A setup that asks for no diagnostics at all. -/
def noCategories : Setup := { syntaxOnly with categories := [] }

/-- Four calls ask. -/
def fourCalls : List Move :=
  [.requestCheck "file:///a.ts" 1, .requestCheck "file:///a.ts" 2, .requestCheck "file:///a.ts" 3,
    .requestCheck "file:///a.ts" 4]

/-- Where no category is set up, no generation ever runs, and each call that
asks has a check written. -/
theorem uncoalesced_without_categories :
    Calm "file:///a.ts" fourCalls (run [.openDocument "file:///a.ts" "typescript" 1 "x"]
      (Relay.new noCategories)) ∧
    ¬ (checksAlong "file:///a.ts" fourCalls (run [.openDocument "file:///a.ts" "typescript" 1 "x"]
      (Relay.new noCategories))).length ≤ 1 + maxRetries := by
  refine ⟨⟨calmMove_of_unedited rfl rfl, calmMove_of_unedited rfl rfl,
    calmMove_of_unedited rfl rfl, calmMove_of_unedited rfl rfl, trivial⟩, ?_⟩
  have hfour : (checksAlong "file:///a.ts" fourCalls
      (run [.openDocument "file:///a.ts" "typescript" 1 "x"] (Relay.new noCategories))).length = 4 :=
    rfl
  rw [hfour]
  decide

end Relay

end LanguageRelay
