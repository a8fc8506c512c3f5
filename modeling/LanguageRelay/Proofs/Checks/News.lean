import LanguageRelay.Proofs.Relay.Documents
import LanguageRelay.Proofs.Table
/-!
# News of error checks

The analysis server tells two things of a check: that it reports a category,
and that it is complete. `Heard` lists what such news can lead to, one
constructor per outcome, each with everything that was tested by then, and
`heard_hear` says that the list is complete. What neither touches a document
nor a check is `Quiet`.
-/

namespace LanguageRelay

/-- The effect is one of error checks: a check was written, a notification
published, or a call that waited released. -/
def Effect.OfChecks : Effect → Prop
  | .sent c => c.name = Service.errorCheckName
  | .published .. => True
  | .released .. => True
  | _ => False

namespace CheckState

/-- A check was written, and a generation begun with it. -/
def asked (categories : List String) (seq : Nat) (c : CheckState) : CheckState :=
  { c with
    generation := c.generation + 1
    outstanding := categories.eraseDups
    merged := []
    inFlight := c.inFlight ++ [⟨seq, c.generation + 1, []⟩] }

/-- All categories are awaited from it, and there are some. -/
theorem asked_awaits {categories : List String} (h : categories ≠ []) (seq : Nat)
    (c : CheckState) : (c.asked categories seq).outstanding ≠ [] := by
  cases categories with
  | nil => exact absurd rfl h
  | cons k rest => simp [asked, List.eraseDups_cons]

/-- The current generation was given up. -/
def dropped (c : CheckState) : CheckState :=
  { c with generation := c.generation + 1, outstanding := [], merged := [] }

/-- A part of the current generation was reported; `entries` are the checks
in flight after that. -/
def counted (category : String) (items : List Json) (entries : List InFlight) (c : CheckState) :
    CheckState :=
  { c with
    inFlight := entries
    merged := Table.put category items c.merged
    outstanding := c.outstanding.filter (· ≠ category) }

/-- What was merged of a category as a check told it, still is when the next part
counts. -/
theorem told_counted {c : CheckState} {parts : List (String × List Json)} {category k : String}
    (htold : Table.get? k c.merged = Table.get? k parts) (hnew : category ∉ Table.keys parts)
    (items : List Json) (entries : List InFlight) :
    Table.get? k (c.counted category items entries).merged =
      Table.get? k (parts ++ [(category, items)]) := by
  rw [← Table.put_of_not_mem items hnew, counted, Table.get?_put, Table.get?_put, htold]

/-- The checks up to a completed one report no more. -/
def after (seq : Int) (c : CheckState) : CheckState :=
  { c with inFlight := c.inFlight.filter fun e => seq < e.seq }

/-- After a completed check the missing parts are asked for again. -/
def again (seq : Int) (c : CheckState) : CheckState := { c.after seq with retries := c.retries + 1 }

/-- After a completed check the missing parts are awaited no more. -/
def exhausted (seq : Int) (c : CheckState) : CheckState := { c.after seq with outstanding := [] }

/-- The connection was closed. -/
def severed (c : CheckState) : CheckState := { c with outstanding := [], waiters := [] }

/-- The current generation has ended. -/
def ended (c : CheckState) : CheckState := { c with waiters := [], merged := [], retries := 0 }

end CheckState

namespace Relay

variable {r r' r'' : Relay} {uri : String} {c : CheckState}

/-! ## Quiet operations -/

/-- Documents and checks are as before, and no effect was one of checks. -/
structure Quiet (r r' : Relay) : Prop where
  sessions : r'.sessions = r.sessions
  checks : r'.checks = r.checks
  uriByFile : r'.uriByFile = r.uriByFile
  abandoned : r'.abandoned = r.abandoned
  setup : r'.setup = r.setup
  standing : r'.link.standing = r.link.standing
  numbers : NumbersOn r r'
  adds : Adds (fun e => ¬ e.OfChecks) r r'

theorem Quiet.refl (r : Relay) : Quiet r r := ⟨rfl, rfl, rfl, rfl, rfl, rfl, .refl r, .refl _ r⟩

theorem Quiet.trans (h : Quiet r r') (h' : Quiet r' r'') : Quiet r r'' where
  sessions := h'.sessions.trans h.sessions
  checks := h'.checks.trans h.checks
  uriByFile := h'.uriByFile.trans h.uriByFile
  abandoned := h'.abandoned.trans h.abandoned
  setup := h'.setup.trans h.setup
  standing := h'.standing.trans h.standing
  numbers := h.numbers.trans h'.numbers
  adds := h.adds.trans h'.adds

theorem Quiet.closed (h : Quiet r r') : r'.link.closed = r.link.closed :=
  Link.closed_of_standing h.standing

theorem Quiet.limit (h : Quiet r r') : r'.link.limit = r.link.limit :=
  Link.limit_of_standing h.standing

theorem Quiet.last (h : Quiet r r') : r.link.last ≤ r'.link.last := h.numbers.last

theorem Quiet.session? (h : Quiet r r') (uri : String) : r'.session? uri = r.session? uri := by
  rw [Relay.session?, h.sessions, Relay.session?]

theorem Quiet.check? (h : Quiet r r') (uri : String) : r'.check? uri = r.check? uri := by
  rw [Relay.check?, h.checks, Relay.check?]

/-- Effects that are neither commands nor of checks are quiet. -/
theorem Quiet.of_effects (hsame : r' = { r with
      link := { r.link with last := r'.link.last, pending := r'.link.pending }
      scheduled := r'.scheduled, lastTimer := r'.lastTimer, outbox := r'.outbox })
    (hlast : r.link.last ≤ r'.link.last)
    (hadds : Adds (fun e => ¬ e.OfChecks ∧ ∀ command, e ≠ .sent command) r r') : Quiet r r' where
  sessions := by rw [hsame]
  checks := by rw [hsame]
  uriByFile := by rw [hsame]
  abandoned := by rw [hsame]
  setup := by rw [hsame]
  standing := by rw [hsame]; rfl
  numbers := .of_silent hlast (hadds.mono fun _ he => he.2)
  adds := hadds.mono fun _ he => he.1

theorem quiet_emit {e : Effect} (h : ¬ e.OfChecks ∧ ∀ command, e ≠ .sent command) (r : Relay) :
    Quiet r (r.emit e) :=
  .of_effects rfl (Nat.le_refl _) (adds_emit h r)

theorem quiet_log (level : LogLevel) (text : String) (r : Relay) : Quiet r (r.log level text) :=
  quiet_emit (by simp [Effect.OfChecks]) r

theorem quiet_takeSeq (r : Relay) : Quiet r r.takeSeq :=
  .of_effects rfl (Nat.le_succ _) (.of_outbox_eq rfl)

/-- A command that asks for no check is quiet. -/
theorem quiet_sent {name : String} (h : name ≠ Service.errorCheckName) (arguments : Json)
    (r : Relay) : Quiet r (r.takeSeq.emit (.sent ⟨(r.nextSeq : Nat), name, arguments⟩)) :=
  ⟨rfl, rfl, rfl, rfl, rfl, rfl, numbersOn_sent name arguments r,
    ⟨[_], rfl, by simpa [Effect.OfChecks] using h⟩⟩

theorem quiet_notify (name : String) (h : name ≠ Service.errorCheckName) (arguments : Json)
    (r : Relay) : Quiet r (r.notify name arguments).1 := by
  cases hc : r.link.refusal? with
  | none =>
    rw [notify_of_taken hc]
    exact quiet_sent h arguments r
  | some cause =>
    rw [notify_of_refused hc]
    exact quiet_takeSeq r

theorem quiet_ask {name : String} (h : name ≠ Service.errorCheckName) (arguments : Json)
    (r : Relay) : Quiet r (r.ask name arguments).1 := by
  have hsent : ∀ r : Relay, Quiet r
      ((r.takeSeq.expect r.nextSeq name).emit (.sent ⟨(r.nextSeq : Nat), name, arguments⟩)) :=
    fun r => (quiet_sent h arguments r).trans (.of_effects rfl (Nat.le_refl _) (.of_outbox_eq rfl))
  unfold Relay.ask
  simp only []
  split
  · exact quiet_takeSeq r
  · split
    · exact quiet_takeSeq r
    · exact hsent r

theorem quiet_sendChange (file : String) (range : Range) (text : String) (r : Relay) :
    Quiet r (r.sendChange file range text).1 := by
  have h := quiet_notify Service.changeName (by decide)
    (changeArguments file range text) r
  unfold sendChange
  split
  all_goals
    rename_i heq
    rwa [heq] at h

theorem quiet_resolve (response : Service.Response) (r : Relay) : Quiet r (r.resolve response) := by
  unfold resolve
  split
  · exact quiet_log _ _ r
  · simp only []
    split
    · exact .of_effects rfl (Nat.le_refl _) (.of_outbox_eq rfl)
    · exact .of_effects rfl (Nat.le_refl _) ⟨[_], rfl, by simp [Effect.OfChecks]⟩

theorem quiet_disarm (uri : String) (r : Relay) : Quiet r (r.disarm uri) := by
  unfold disarm
  split
  · exact .refl r
  · exact .of_effects rfl (Nat.le_refl _) ⟨[_], rfl, by simp [Effect.OfChecks]⟩

theorem quiet_schedule (uri : String) (r : Relay) : Quiet r (r.schedule uri) :=
  (quiet_disarm uri r).trans
    (.of_effects rfl (Nat.le_refl _) ⟨[_], rfl, by simp [Effect.OfChecks]⟩)

theorem quiet_fire (uri : String) (timer : Nat) (r : Relay) : Quiet r (r.fire uri timer).1 := by
  unfold fire
  split
  · exact .of_effects rfl (Nat.le_refl _) (.of_outbox_eq rfl)
  · exact .refl r

/-! ## Checks that are written -/

/-- A check of a file was written, under the next number. -/
def wrote (file : String) (r : Relay) : Relay :=
  r.takeSeq.emit (.sent ⟨(r.nextSeq : Nat), Service.errorCheckName, checkArguments file⟩)

/-- A generation begins with the check that is written, if it is taken. -/
theorem startGeneration_of_taken (h : r.link.refusal? = none) (uri : String) (c : CheckState) :
    r.startGeneration uri c =
      ((r.wrote c.file).setCheck uri (c.asked r.setup.categories r.nextSeq), none) := by
  rw [startGeneration, notify_of_taken h]
  rfl

/-- None begins if it is refused. -/
theorem startGeneration_of_refused (cause : Closure) (h : r.link.refusal? = some cause)
    (uri : String) (c : CheckState) :
    r.startGeneration uri c = (r.takeSeq, some (.closed cause)) := by
  rw [startGeneration, notify_of_refused h]

/-! ## News of checks -/

/-- What the analysis server tells of checks. -/
inductive News where
  /-- A check of a file reports one category. -/
  | part (file category : String) (items : List Json)
  /-- The check with a number is complete. -/
  | completed (seq : Int)

/-- What an event tells of checks, if anything. -/
def newsOf? (event : Service.Event) : Option News :=
  if event.event = Service.completedEvent then
    (event.body.get "request_seq").exactInteger?.map .completed
  else
    match categoryOf? event.event, event.body.get "file" with
    | some category, .str file =>
      some (.part file category (event.body.get "diagnostics").items)
    | _, _ => none

/-- Takes in news of checks. -/
def hear : News → Relay → Relay × Option Failure
  | .part file category items, r => r.reportFile file category items
  | .completed seq, r => r.complete seq

/-- An event is what it tells of checks. -/
theorem handleEvent_eq (event : Service.Event) (r : Relay) :
    r.handleEvent event = (newsOf? event).elim (r, none) fun note => r.hear note := by
  unfold handleEvent newsOf?
  split
  · cases (event.body.get "request_seq").exactInteger? <;> rfl
  · cases categoryOf? event.event with
    | none => rfl
    | some category => cases event.body.get "file" <;> rfl

@[simp] theorem session?_setCheck (uri : String) (c : CheckState) (r : Relay) (u : String) :
    (r.setCheck uri c).session? u = r.session? u :=
  rfl

@[simp] theorem setup_setCheck (uri : String) (c : CheckState) (r : Relay) :
    (r.setCheck uri c).setup = r.setup :=
  rfl

theorem check?_mapChecks (f : CheckState → CheckState) (r : Relay) (u : String) :
    (r.mapChecks f).check? u = (r.check? u).map f :=
  Table.get?_map _ _ _

@[simp] theorem check?_setCheck (uri : String) (c : CheckState) (r : Relay) (u : String) :
    (r.setCheck uri c).check? u = if uri = u then some c else r.check? u :=
  Table.get?_put _ _ _ _

/-- Where one record is set, its document has it, and the others keep theirs. -/
theorem check?_put {c' : CheckState} (hchecks : r'.checks = Table.put uri c' r.checks)
    (u : String) : r'.check? u = if uri = u then some c' else r.check? u := by
  rw [check?, hchecks, Table.get?_put, check?]

/-- So a record is the one that was set, or was there. -/
theorem check?_put_cases {u : String} {c' d : CheckState}
    (hchecks : r'.checks = Table.put uri c' r.checks) (hd : r'.check? u = some d) :
    uri = u ∧ c' = d ∨ uri ≠ u ∧ r.check? u = some d := by
  rw [check?_put hchecks] at hd
  split at hd
  · exact .inl ⟨‹_›, Option.some.inj hd⟩
  · exact .inr ⟨‹_›, hd⟩

/-- Setting a check twice is setting it once. -/
theorem setCheck_setCheck (uri : String) (c c' : CheckState) (r : Relay) :
    (r.setCheck uri c').setCheck uri c = r.setCheck uri c := by
  simp [setCheck, Table.put_put]

/-- A generation begins as if nothing had been set for its document before. -/
theorem startGeneration_setCheck_of_taken (h : r.link.refusal? = none) (uri : String)
    (c c' : CheckState) : (r.setCheck uri c').startGeneration uri c =
      ((r.wrote c.file).setCheck uri (c.asked r.setup.categories r.nextSeq), none) := by
  rw [startGeneration_of_taken (by exact h)]
  exact congrArg (·, none) (setCheck_setCheck uri _ c' (r.wrote c.file))

/-- A generation settles as if nothing had been set for its document
before. -/
theorem settle_setCheck (uri : String) (c c' : CheckState) (r : Relay) :
    (r.setCheck uri c').settle uri c = r.settle uri c := by
  unfold settle
  simp only [setCheck_setCheck]

/-- Where the document is open and every entry converts or is skipped,
settling publishes what converts and releases the waiters. -/
theorem settle_of_ok {s : Session} {faults : List ProtocolFault} {diagnostics : List Diagnostic}
    (hopen : r.session? uri = some s)
    (hentries : Diagnostic.ofEntries (mergedEntries r.setup.categories c.merged) =
      (faults, .ok diagnostics)) :
    r.settle uri c =
      ({ r with
          checks := Table.put uri { c.ended with fresh := true } r.checks
          outbox := r.outbox ++ (faults.map (skipLine uri) ++
            .published uri diagnostics (some s.version) :: releases (.ok ()) c.waiters) },
        none) := by
  unfold settle
  simp only [session?_setCheck, setup_setCheck, hopen, hentries, logSkipped_eq, releaseWaiters_eq]
  simp [setCheck, emit, Table.put_put, CheckState.ended]

/-- Where an entry fails otherwise than as a protocol fault, settling logs
those skipped before it and fails. -/
theorem settle_of_error {s : Session} {faults : List ProtocolFault} {e : Failure}
    (hopen : r.session? uri = some s)
    (hentries : Diagnostic.ofEntries (mergedEntries r.setup.categories c.merged) =
      (faults, .error e)) :
    r.settle uri c =
      ({ r with
          checks := Table.put uri c.ended r.checks
          outbox := r.outbox ++ faults.map (skipLine uri) },
        some e) := by
  unfold settle
  simp only [session?_setCheck, setup_setCheck, hopen, hentries, logSkipped_eq]
  rfl

/-- Where the document is not open, settling releases the waiters. -/
theorem settle_of_closed (hopen : r.session? uri = none) (c : CheckState) :
    r.settle uri c =
      ({ r with
          checks := Table.put uri c.ended r.checks
          outbox := r.outbox ++ releases (.ok ()) c.waiters },
        none) := by
  unfold settle
  simp only [session?_setCheck, hopen, releaseWaiters_eq]
  rfl

/-- What settling does: it logs what it skips, publishes what was gathered for
the open document, and releases the waiters. -/
inductive Settling (uri : String) (c : CheckState) (r : Relay) : Effect → Prop where
  | logged (level : LogLevel) (text : String) : Settling uri c r (.logged level text)
  | published {s : Session} {faults : List ProtocolFault} {diagnostics : List Diagnostic}
      (hopen : r.session? uri = some s)
      (hentries : Diagnostic.ofEntries (mergedEntries r.setup.categories c.merged) =
        (faults, .ok diagnostics)) :
      Settling uri c r (.published uri diagnostics (some s.version))
  | released {id : Nat} (hwaits : ⟨id, false⟩ ∈ c.waiters) :
      Settling uri c r (.released id (.ok ()))

theorem Settling.not_sent {x : Effect} (h : Settling uri c r x) (command : Service.Command) :
    x ≠ .sent command := by
  cases h <;> simp

/-- **Settling changes the checks of the one document**, and adds to the
history. -/
theorem settle_shape (uri : String) (c : CheckState) (r : Relay) :
    ∃ fresh fx, (r.settle uri c).1 =
      { r with
        checks := Table.put uri { c.ended with fresh } r.checks
        outbox := r.outbox ++ fx } ∧ ∀ x ∈ fx, Settling uri c r x := by
  have hreleases : ∀ x ∈ releases (.ok ()) c.waiters, Settling uri c r x := by
    intro x hx
    obtain ⟨⟨id, settled⟩, hw, rfl⟩ := List.mem_map.mp hx
    obtain ⟨hw, hunsettled⟩ := List.mem_filter.mp hw
    obtain rfl : settled = false := by simpa using hunsettled
    exact .released hw
  have hskips : ∀ faults : List ProtocolFault, ∀ x ∈ faults.map (skipLine uri),
      Settling uri c r x := by
    intro faults x hx
    obtain ⟨fault, -, rfl⟩ := List.mem_map.mp hx
    exact .logged _ _
  cases hopen : r.session? uri with
  | none => exact ⟨c.fresh, _, by rw [settle_of_closed hopen]; rfl, hreleases⟩
  | some s =>
    obtain ⟨faults, result, hentries⟩ : ∃ faults result,
        Diagnostic.ofEntries (mergedEntries r.setup.categories c.merged) = (faults, result) :=
      ⟨_, _, rfl⟩
    cases result with
    | error e => exact ⟨c.fresh, _, by rw [settle_of_error hopen hentries]; rfl, hskips faults⟩
    | ok diagnostics =>
      refine ⟨true, _, by rw [settle_of_ok hopen hentries], fun x hx => ?_⟩
      rcases List.mem_append.mp hx with hx | hx
      · exact hskips faults x hx
      · rcases List.mem_cons.mp hx with rfl | hx
        · exact .published hopen hentries
        · exact hreleases x hx

/-- Settling gives out no number. -/
theorem last_settle (uri : String) (c : CheckState) (r : Relay) :
    (r.settle uri c).1.link.last = r.link.last := by
  obtain ⟨fresh, fx, hshape, -⟩ := settle_shape uri c r
  rw [hshape]

theorem adds_settling (uri : String) (c : CheckState) (r : Relay) :
    Adds (Settling uri c r) r (r.settle uri c).1 := by
  obtain ⟨fresh, fx, hshape, hsettling⟩ := settle_shape uri c r
  exact ⟨fx, by rw [hshape], hsettling⟩

/-! ## What news lead to -/

/-- A check that is found in flight is one of a document's, and it has the
number looked for. -/
theorem findInFlight?_some {seq : Int} {checks : List (String × CheckState)} {e : InFlight}
    (h : findInFlight? seq checks = some (uri, c, e)) :
    (uri, c) ∈ checks ∧ e ∈ c.inFlight ∧ (e.seq : Int) = seq := by
  induction checks with
  | nil => simp [findInFlight?] at h
  | cons head rest ih =>
    obtain ⟨u, d⟩ := head
    rw [findInFlight?] at h
    split at h
    · rename_i e' he'
      cases h
      exact ⟨List.mem_cons_self, List.mem_of_find?_eq_some he',
        by simpa using List.find?_some he'⟩
    · obtain ⟨hmem, hrest⟩ := ih h
      exact ⟨List.mem_cons_of_mem _ hmem, hrest⟩

/-- A number that is not found is that of no check in flight. -/
theorem findInFlight?_none {seq : Int} {checks : List (String × CheckState)}
    (h : findInFlight? seq checks = none) :
    ∀ uri c, (uri, c) ∈ checks → ∀ e ∈ c.inFlight, (e.seq : Int) ≠ seq := by
  induction checks with
  | nil => simp
  | cons head rest ih =>
    obtain ⟨u, d⟩ := head
    rw [findInFlight?] at h
    split at h
    · simp at h
    · rename_i hnone
      intro uri c hmem e he heq
      rcases List.mem_cons.mp hmem with hhead | hmem
      · cases hhead
        simpa [heq] using List.find?_eq_none.mp hnone e he
      · exact ih h uri c hmem e he heq

/-- What is left of a document's checks when one of them has completed. -/
def completed (seq : Int) (uri : String) (c : CheckState) (r : Relay) : Relay :=
  (r.retireAbandoned seq).setCheck uri (c.after seq)

/-- **What news of checks lead to**, with the failure they may end in. -/
inductive Heard (r : Relay) : News → Relay → Option Failure → Prop where
  /-- The part belongs to a check of a closed document. -/
  | credited {file category items e entries}
      (hmark : markFirst category ((Table.get? file r.abandoned).getD []) = some (e, entries)) :
      Heard r (.part file category items) (r.setAbandoned file entries) none
  /-- No check of the file awaits the part. -/
  | unawaited {file category items}
      (habandoned : markFirst category ((Table.get? file r.abandoned).getD []) = none)
      (hnone : ∀ uri c, Table.get? file r.uriByFile = some uri → r.check? uri = some c →
        markFirst category c.inFlight = none) :
      Heard r (.part file category items) r none
  /-- The part belongs to an older generation, or is awaited no more. -/
  | outdated {file category items e entries uri c}
      (habandoned : markFirst category ((Table.get? file r.abandoned).getD []) = none)
      (huri : Table.get? file r.uriByFile = some uri) (hcheck : r.check? uri = some c)
      (hmark : markFirst category c.inFlight = some (e, entries))
      (hold : e.generation ≠ c.generation ∨ category ∉ c.outstanding) :
      Heard r (.part file category items) (r.setCheck uri { c with inFlight := entries }) none
  /-- The part counts, and others are awaited still. -/
  | counted {file category items e entries uri c}
      (habandoned : markFirst category ((Table.get? file r.abandoned).getD []) = none)
      (huri : Table.get? file r.uriByFile = some uri) (hcheck : r.check? uri = some c)
      (hmark : markFirst category c.inFlight = some (e, entries))
      (hcurrent : e.generation = c.generation) (hawaited : category ∈ c.outstanding)
      (hleft : (c.counted category items entries).outstanding ≠ []) :
      Heard r (.part file category items) (r.setCheck uri (c.counted category items entries)) none
  /-- The part counts, and it is the last. -/
  | settled {file category items e entries uri c}
      (habandoned : markFirst category ((Table.get? file r.abandoned).getD []) = none)
      (huri : Table.get? file r.uriByFile = some uri) (hcheck : r.check? uri = some c)
      (hmark : markFirst category c.inFlight = some (e, entries))
      (hcurrent : e.generation = c.generation) (hawaited : category ∈ c.outstanding)
      (hleft : (c.counted category items entries).outstanding = []) :
      Heard r (.part file category items)
        (r.settle uri (c.counted category items entries)).1
        (r.settle uri (c.counted category items entries)).2
  /-- The check that completed is of no open document. -/
  | retired {seq} (hfind : findInFlight? seq r.checks = none) :
      Heard r (.completed seq) (r.retireAbandoned seq) none
  /-- It is of an older generation, or nothing is awaited. -/
  | overtaken {seq uri c e} (hfind : findInFlight? seq r.checks = some (uri, c, e))
      (hold : e.generation ≠ c.generation ∨ c.outstanding = []) :
      Heard r (.completed seq) (r.completed seq uri c) none
  /-- Parts are missing, and they are asked for again. -/
  | repeated {seq uri c e text} (hfind : findInFlight? seq r.checks = some (uri, c, e))
      (hcurrent : e.generation = c.generation) (hawaited : c.outstanding ≠ [])
      (hpatient : c.retries < maxRetries) (htaken : r.link.refusal? = none) :
      Heard r (.completed seq)
        ((((r.completed seq uri c).log .info text).wrote c.file).setCheck uri
          ((c.again seq).asked r.setup.categories r.nextSeq))
        none
  /-- Parts are missing, and asking for them again is refused. -/
  | severed {seq uri c e text cause} (hfind : findInFlight? seq r.checks = some (uri, c, e))
      (hcurrent : e.generation = c.generation) (hawaited : c.outstanding ≠ [])
      (hpatient : c.retries < maxRetries) (hrefused : r.link.refusal? = some cause) :
      Heard r (.completed seq)
        (((r.retireAbandoned seq).setCheck uri (c.again seq)).log .info text).takeSeq
        (some (.closed cause))
  /-- Parts are missing, and what there is has to do. -/
  | exhausted {seq uri c e text} (hfind : findInFlight? seq r.checks = some (uri, c, e))
      (hcurrent : e.generation = c.generation) (hawaited : c.outstanding ≠ [])
      (hpatient : maxRetries ≤ c.retries) :
      Heard r (.completed seq)
        (((r.retireAbandoned seq).log .warning text).settle uri (c.exhausted seq)).1
        (((r.retireAbandoned seq).log .warning text).settle uri (c.exhausted seq)).2

/-- A part for an open document leads to one of the outcomes. -/
theorem heard_report {file category : String} {items : List Json}
    (habandoned : markFirst category ((Table.get? file r.abandoned).getD []) = none)
    (huri : Table.get? file r.uriByFile = some uri) (hcheck : r.check? uri = some c) :
    Heard r (.part file category items) (r.report uri category items c).1
      (r.report uri category items c).2 := by
  unfold report
  cases hmark : markFirst category c.inFlight with
  | none =>
    refine .unawaited habandoned fun uri' c' huri' hcheck' => ?_
    cases huri.symm.trans huri'
    cases hcheck.symm.trans hcheck'
    exact hmark
  | some found =>
    obtain ⟨e, entries⟩ := found
    simp only []
    split
    · rename_i hold
      exact .outdated habandoned huri hcheck hmark (by simpa using hold)
    · rename_i hnew
      obtain ⟨hcurrent, hawaited⟩ : e.generation = c.generation ∧ category ∈ c.outstanding := by
        simpa [not_or] using hnew
      rw [settle_setCheck]
      split
      · rename_i hleft
        exact .settled habandoned huri hcheck hmark hcurrent hawaited (List.isEmpty_iff.mp hleft)
      · rename_i hleft
        exact .counted habandoned huri hcheck hmark hcurrent hawaited
          fun h => hleft (List.isEmpty_iff.mpr h)

/-- A part leads to one of the outcomes. -/
theorem heard_reportFile (file category : String) (items : List Json) (r : Relay) :
    Heard r (.part file category items) (r.reportFile file category items).1
      (r.reportFile file category items).2 := by
  unfold reportFile creditAbandoned?
  cases habandoned : markFirst category ((Table.get? file r.abandoned).getD []) with
  | some found => exact .credited habandoned
  | none =>
    cases huri : Table.get? file r.uriByFile with
    | none => exact .unawaited habandoned (by simp [huri])
    | some uri =>
      cases hcheck : r.check? uri with
      | none =>
        simp only [Option.map_none, hcheck]
        refine .unawaited habandoned fun uri' c' huri' hcheck' => ?_
        cases huri.symm.trans huri'
        simp [hcheck] at hcheck'
      | some c =>
        simp only [Option.map_none, hcheck]
        exact heard_report habandoned huri hcheck

/-- Asking again for the parts that are missing. -/
theorem heard_incomplete {seq : Int} {e : InFlight}
    (hfind : findInFlight? seq r.checks = some (uri, c, e))
    (hcurrent : e.generation = c.generation) (hawaited : c.outstanding ≠ []) :
    Heard r (.completed seq) ((r.completed seq uri c).incomplete uri (c.after seq)).1
      ((r.completed seq uri c).incomplete uri (c.after seq)).2 := by
  unfold incomplete
  simp only []
  split
  · rename_i hpatient
    have hlog : ∀ text, ((r.completed seq uri c).log .warning text).settle uri (c.exhausted seq) =
        ((r.retireAbandoned seq).log .warning text).settle uri (c.exhausted seq) :=
      fun text => settle_setCheck uri _ (c.after seq) ((r.retireAbandoned seq).log .warning text)
    change Heard r (.completed seq) (((r.completed seq uri c).log .warning _).settle uri
      (c.exhausted seq)).1 (((r.completed seq uri c).log .warning _).settle uri (c.exhausted seq)).2
    rw [hlog]
    exact .exhausted hfind hcurrent hawaited hpatient
  · rename_i hpatient
    have htwice : ∀ text, ((r.completed seq uri c).log .info text).setCheck uri (c.again seq) =
        ((r.retireAbandoned seq).setCheck uri (c.again seq)).log .info text :=
      fun text => setCheck_setCheck uri (c.again seq) (c.after seq)
        ((r.retireAbandoned seq).log .info text)
    change Heard r (.completed seq)
      ((((r.completed seq uri c).log .info _).setCheck uri (c.again seq)).startGeneration uri
        (c.again seq)).1
      ((((r.completed seq uri c).log .info _).setCheck uri (c.again seq)).startGeneration uri
        (c.again seq)).2
    cases htaken : r.link.refusal? with
    | none =>
      rw [startGeneration_setCheck_of_taken (by exact htaken)]
      exact .repeated hfind hcurrent hawaited (Nat.lt_of_not_le hpatient) htaken
    | some cause =>
      rw [htwice, startGeneration_of_refused cause (by exact htaken)]
      exact .severed hfind hcurrent hawaited (Nat.lt_of_not_le hpatient) htaken

/-- The check that completed is of no open document. -/
theorem complete_of_none {seq : Int} (hfind : findInFlight? seq r.checks = none) :
    r.complete seq = (r.retireAbandoned seq, none) := by
  have hretired : findInFlight? seq (r.retireAbandoned seq).checks = none := hfind
  simp only [complete, hretired]

/-- The check that completed is of an open document. -/
theorem complete_of_some {seq : Int} {e : InFlight}
    (hfind : findInFlight? seq r.checks = some (uri, c, e)) :
    r.complete seq =
      if e.generation ≠ c.generation ∨ c.outstanding = [] then (r.completed seq uri c, none)
      else (r.completed seq uri c).incomplete uri (c.after seq) := by
  have hretired : findInFlight? seq (r.retireAbandoned seq).checks = some (uri, c, e) := hfind
  simp only [complete, completed, CheckState.after, hretired, List.isEmpty_iff]

/-- A completion leads to one of the outcomes. -/
theorem heard_complete (seq : Int) (r : Relay) :
    Heard r (.completed seq) (r.complete seq).1 (r.complete seq).2 := by
  cases hfind : findInFlight? seq r.checks with
  | none =>
    rw [complete_of_none hfind]
    exact .retired hfind
  | some found =>
    obtain ⟨uri, c, e⟩ := found
    rw [complete_of_some hfind]
    split
    · rename_i hold
      exact .overtaken hfind hold
    · rename_i hnew
      obtain ⟨hcurrent, hawaited⟩ := not_or.mp hnew
      exact heard_incomplete hfind (not_not.mp hcurrent) hawaited

/-- **News lead to one of the outcomes.** -/
theorem heard_hear (note : News) (r : Relay) : Heard r note (r.hear note).1 (r.hear note).2 := by
  cases note with
  | part file category items => exact heard_reportFile file category items r
  | completed seq => exact heard_complete seq r

end Relay

end LanguageRelay
