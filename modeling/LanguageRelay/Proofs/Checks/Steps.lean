import LanguageRelay.Proofs.Checks.News
import Mathlib.Logic.Relation
/-!
# The steps of error checks

`Step` lists what a relay does to documents and checks of its own accord,
one constructor per change. Every move is a chain of such steps
(`steps_perform`), unless it takes in news of a check (`perform_of_news`), so
that an invariant is proved once per constructor of `Step` and of `Heard`.

`Asking` lists what a call that asks for diagnostics leads to.
-/

namespace LanguageRelay

/-- Diagnostics were published. -/
def Effect.Publishes : Effect → Prop
  | .published .. => True
  | _ => False

/-- Nothing was written, and nothing published. -/
def Effect.Silent (e : Effect) : Prop := (∀ command, e ≠ .sent command) ∧ ¬ e.Publishes

namespace Relay

variable {r r' r'' : Relay} {uri : String} {c : CheckState}

/-! ## Closing as one update -/

/-- A document without a record of checks leaves nothing behind. -/
theorem forget_of_none (h : r.check? uri = none) : r.forget uri = r.disarm uri := by
  have h' : (r.disarm uri).check? uri = none := by rw [(quiet_disarm uri r).check?, h]
  unfold forget
  simp only [h']

/-- The checks of a closed document that still run are kept by its file. -/
def abandonedAfter (c : CheckState) (abandoned : List (String × List InFlight)) :
    List (String × List InFlight) :=
  if c.inFlight = [] then abandoned
  else Table.put c.file ((Table.get? c.file abandoned).getD [] ++ c.inFlight) abandoned

/-- The file of a closed document leads to it no more. -/
def unlinkedFrom (uri file : String) (uriByFile : List (String × String)) :
    List (String × String) :=
  if Table.get? file uriByFile = some uri then Table.erase file uriByFile else uriByFile

/-- A document with one is forgotten, and its waiters are released. -/
theorem forget_of_some (h : r.check? uri = some c) :
    r.forget uri =
      { r.disarm uri with
        checks := Table.erase uri r.checks
        uriByFile := unlinkedFrom uri c.file r.uriByFile
        abandoned := abandonedAfter c r.abandoned
        outbox := (r.disarm uri).outbox ++ releases (.ok ()) c.waiters } := by
  have hquiet := quiet_disarm uri r
  have h' : (r.disarm uri).check? uri = some c := by rw [hquiet.check?, h]
  unfold forget
  simp only [h', releaseWaiters_eq, ← hquiet.checks, ← hquiet.uriByFile, ← hquiet.abandoned]
  unfold abandon unlinkFile abandonedAfter unlinkedFrom setAbandoned
  simp only [List.isEmpty_iff]
  split <;> split <;> simp_all

/-- Forgetting a document leaves the connection alone. -/
theorem link_forget (uri : String) (r : Relay) : (r.forget uri).link = r.link := by
  have hdisarm : (r.disarm uri).link = r.link := by
    unfold disarm
    split <;> rfl
  cases hcheck : r.check? uri with
  | none => rw [forget_of_none hcheck, hdisarm]
  | some c => rw [forget_of_some hcheck, hdisarm]

/-- Only the document's record is gone. -/
theorem check?_forget (uri : String) (r : Relay) (u : String) :
    (r.forget uri).check? u = if uri = u then none else r.check? u := by
  cases hcheck : r.check? uri with
  | none =>
    rw [forget_of_none hcheck, (quiet_disarm uri r).check?]
    split
    · rename_i heq
      rw [← heq, hcheck]
    · rfl
  | some c =>
    rw [forget_of_some hcheck]
    exact Table.get?_erase _ _ _

theorem silent_releases (outcome : Except Failure Unit) (ws : List Waiter) :
    ∀ e ∈ releases outcome ws, e.Silent := by
  intro e he
  obtain ⟨w, -, rfl⟩ := List.mem_map.mp he
  exact ⟨by simp, id⟩

/-- Forgetting a document is silent: its timer is taken back, and its waiters
are released. -/
theorem adds_forget (uri : String) (r : Relay) : Adds Effect.Silent r (r.forget uri) := by
  have hdisarm : Adds Effect.Silent r (r.disarm uri) := by
    unfold disarm
    split
    · exact .refl _ r
    · exact ⟨[_], rfl, by simp [Effect.Silent, Effect.Publishes]⟩
  cases hcheck : r.check? uri with
  | none => rwa [forget_of_none hcheck]
  | some c =>
    rw [forget_of_some hcheck]
    exact hdisarm.trans ⟨releases (.ok ()) c.waiters, rfl, silent_releases _ _⟩

/-- What is said when commands are rejected because the connection closed. -/
def rejectionNotice (cause : Closure) (pending : List Pending) : List Effect :=
  if pending = [] then []
  else [.logged .error ("rejecting " ++ natText pending.length ++ " pending tsserver commands: "
    ++ cause.message)]

/-- The closing of the connection rejects all commands, takes back all
timers and releases all waiters. -/
theorem disconnect_of_open (hup : r.link.closed = none) (cause : Closure) :
    r.disconnect cause =
      { r with
        link := { r.link with closed := some cause, pending := [] }
        checks := (r.mapChecks CheckState.severed).checks
        abandoned := []
        scheduled := []
        outbox := r.outbox ++ rejectionNotice cause r.link.pending
          ++ rejections cause r.link.pending
          ++ r.scheduled.map (fun e => .disarmed e.1 e.2)
          ++ releases (.error (.closed cause)) (r.checks.flatMap fun e => e.2.waiters)
          ++ [.closed cause] } := by
  unfold disconnect releaseAll rejectPending
  simp only [hup, Option.isSome_none, Bool.false_eq_true, if_false, releaseWaiters_eq, rejectAll_eq,
    List.isEmpty_iff]
  split
  · rename_i hpending
    simp [hpending, rejectionNotice, rejections, disarmAll, mapChecks, emit, CheckState.severed]
  · rename_i hpending
    simp [hpending, rejectionNotice, disarmAll, mapChecks, emit, log, CheckState.severed]

/-- The closing of the connection is silent. -/
theorem adds_disconnect (hup : r.link.closed = none) (cause : Closure) :
    Adds Effect.Silent r (r.disconnect cause) := by
  rw [disconnect_of_open hup]
  refine ⟨_, by simp only [List.append_assoc]; rfl, fun e he => ?_⟩
  simp only [List.mem_append, List.mem_singleton] at he
  rcases he with he | he | he | he | rfl
  · unfold rejectionNotice at he
    split at he
    · simp at he
    · cases List.mem_singleton.mp he
      exact ⟨by simp, id⟩
  · obtain ⟨p, -, rfl⟩ := List.mem_map.mp he
    exact ⟨by simp, id⟩
  · obtain ⟨t, -, rfl⟩ := List.mem_map.mp he
    exact ⟨by simp, id⟩
  · exact silent_releases _ _ e he
  · exact ⟨by simp, id⟩

/-! ## Amendments -/

/-- Documents may have changed, but no record of checks, and no effect was one
of checks. -/
structure Amends (r r' : Relay) : Prop where
  checks : r'.checks = r.checks
  setup : r'.setup = r.setup
  standing : r'.link.standing = r.link.standing
  adds : Adds (fun e => ¬ e.OfChecks) r r'

theorem Quiet.amends (h : Quiet r r') : Amends r r' := ⟨h.checks, h.setup, h.standing, h.adds⟩

theorem Amends.trans (h : Amends r r') (h' : Amends r' r'') : Amends r r'' :=
  ⟨h'.checks.trans h.checks, h'.setup.trans h.setup, h'.standing.trans h.standing,
    h.adds.trans h'.adds⟩

theorem Amends.closed (h : Amends r r') : r'.link.closed = r.link.closed :=
  Link.closed_of_standing h.standing

theorem amends_setSession (s : Session) (r : Relay) : Amends r (r.setSession s) :=
  ⟨rfl, rfl, rfl, .of_outbox_eq rfl⟩

/-! ## Steps of a relay's own accord -/

/-- **What a relay does to documents and checks of its own accord**, when the
documents opened are among `uris`. -/
inductive Step (uris : List String) : Relay → Relay → Prop where
  | quiet {r r' : Relay} (h : Quiet r r') : Step uris r r'
  /-- A session is set for a document and its file. -/
  | opened {r : Relay} {s : Session} (hmem : s.uri ∈ uris)
      (hfile : Uri.fileOf? s.uri = some s.file) : Step uris r (r.setSession s)
  /-- A session gets another version and text. -/
  | edited {r : Relay} {uri : String} {s : Session} {version : Int} {text : List Char}
      (hopen : r.session? uri = some s) : Step uris r (r.setSession { s with version, text })
  /-- An open document gets a record of its checks. -/
  | enrolled {r : Relay} {uri : String} {s : Session} (hopen : r.session? uri = some s)
      (hnone : r.check? uri = none) :
      Step uris r { r.setCheck uri (CheckState.new s.file) with
        uriByFile := Table.put s.file uri r.uriByFile }
  /-- A check is written because a call asks, or because of a change while
  calls wait. -/
  | asked {r : Relay} {uri : String} {c : CheckState} (hcheck : r.check? uri = some c)
      (htaken : r.link.refusal? = none)
      (hwhy : c.outstanding = [] ∧ c.fresh = false ∨ c.outstanding ≠ [] ∧ c.waiters ≠ []) :
      Step uris r ((r.wrote c.file).setCheck uri (c.asked r.setup.categories r.nextSeq))
  /-- A call waits for the current generation. -/
  | awaited {r : Relay} {uri : String} {c : CheckState} {waiter : Nat}
      (hcheck : r.check? uri = some c)
      (hout : c.outstanding ≠ [] ∨ r.setup.categories = []) : Step uris r (r.addWaiter uri waiter)
  | withdrew {r : Relay} {waiter : Nat} : Step uris r (r.withdrawWaiter waiter)
  | staled {r : Relay} : Step uris r r.stale
  /-- A change gives up a generation no call waits for. -/
  | dropped {r : Relay} {uri : String} {c : CheckState} (hcheck : r.check? uri = some c)
      (hout : c.outstanding ≠ []) (hwaiters : c.waiters = []) :
      Step uris r (r.setCheck uri c.dropped)
  /-- A document is closed. -/
  | closed {r : Relay} {uri : String} :
      Step uris r (forget uri { r with sessions := Table.erase uri r.sessions })
  | disconnected {r : Relay} {cause : Closure} (hup : r.link.closed = none) :
      Step uris r (r.disconnect cause)

/-- Any number of steps. -/
abbrev Steps (uris : List String) : Relay → Relay → Prop := Relation.ReflTransGen (Step uris)

variable {uris : List String}

theorem Quiet.steps (h : Quiet r r') : Steps uris r r' := .single (.quiet h)

/-- What every step keeps, any number of steps keep. -/
theorem Steps.keep {P : Relay → Prop} (hstep : ∀ r r', Step uris r r' → P r → P r')
    (h : Steps uris r r') (hP : P r) : P r' := by
  induction h with
  | refl => exact hP
  | tail _ hlast ih => exact hstep _ _ hlast ih

/-- A change of a document leaves no check fresh, and asks again where calls
wait. -/
theorem steps_invalidate (uri : String) (r : Relay) : Steps uris r (r.invalidate uri).1 := by
  have hstale : Steps uris r r.stale := .single .staled
  unfold invalidate
  simp only []
  cases hcheck : r.stale.check? uri with
  | none => exact hstale
  | some c =>
    simp only []
    split
    · exact hstale
    · rename_i hout
      have hout : c.outstanding ≠ [] := fun h => hout (List.isEmpty_iff.mpr h)
      split
      · rename_i hwaiters
        exact hstale.tail (.dropped hcheck hout (List.isEmpty_iff.mp hwaiters))
      · rename_i hwaiters
        have hwaiters : c.waiters ≠ [] := fun h => hwaiters (List.isEmpty_iff.mpr h)
        cases hup : r.stale.link.refusal? with
        | none =>
          rw [startGeneration_of_taken hup]
          exact hstale.tail (.asked hcheck hup (.inr ⟨hout, hwaiters⟩))
        | some cause =>
          rw [startGeneration_of_refused cause hup]
          exact hstale.tail (.quiet (quiet_takeSeq _))

/-- Opening a document amends it, and ends in telling its checks of a change,
unless there are none to tell or nobody to write to. -/
theorem openDocument_split (hmem : uri ∈ uris) (languageId : String) (version : Int)
    (content : String) (r : Relay) :
    ∃ r₁, Steps uris r r₁ ∧ Amends r r₁ ∧
      ((r.openDocument uri languageId version content).1 = (r₁.invalidate uri).1 ∧
          r.session? uri ≠ none ∧ r.link.refusal? = none ∨
        (r.openDocument uri languageId version content).1 = r₁ ∧
          (Uri.fileOf? uri = none ∨ r.link.refusal? ≠ none ∨ r.session? uri = none)) := by
  have hquiet : Quiet r (r.reopening uri) := by
    rcases reopening_cases uri r with heq | ⟨text, heq⟩ <;> rw [heq]
    · exact .refl r
    · exact quiet_log _ _ r
  rcases openDocument_cases uri languageId version content r with ⟨hfile, heq⟩ |
    ⟨file, r', hfile, rfl, hrest⟩
  · exact ⟨_, hquiet.steps, hquiet.amends, .inr ⟨heq, .inl hfile⟩⟩
  · have hset : Steps uris r
        ((r.reopening uri).setSession ⟨uri, file, languageId, version, content.toList⟩) :=
      hquiet.steps.tail (.opened hmem hfile)
    have htold := quiet_notify Service.openName (by decide)
      (openArguments (r.reopening uri).setup.root file languageId content)
      ((r.reopening uri).setSession ⟨uri, file, languageId, version, content.toList⟩)
    refine ⟨_, hset.trans htold.steps, (hquiet.amends.trans (amends_setSession _ _)).trans
      htold.amends, ?_⟩
    rcases hrest with ⟨heq, hnot⟩ | ⟨heq, hup, hopen⟩
    · exact .inr ⟨heq, .inr hnot⟩
    · exact .inl ⟨heq, hopen, hup⟩

theorem steps_openDocument (hmem : uri ∈ uris) (languageId : String) (version : Int)
    (content : String) (r : Relay) :
    Steps uris r (r.openDocument uri languageId version content).1 := by
  obtain ⟨r₁, hsteps, -, ⟨heq, -⟩ | ⟨heq, -⟩⟩ :=
    openDocument_split hmem languageId version content r
  · rw [heq]
    exact hsteps.trans (steps_invalidate uri r₁)
  · rwa [heq]

/-- Changes made one by one, of a session that is the document's. -/
theorem steps_changeEach {s : Session} (changes : List TextChange)
    (hopen : r.session? s.uri = some s) :
    Steps uris r (changeEach s changes r).1 ∧ Amends r (changeEach s changes r).1 := by
  induction changes generalizing s r with
  | nil => exact ⟨.refl, (Quiet.refl r).amends⟩
  | cons change rest ih =>
    rw [changeEach]
    simp only []
    have hset : Steps uris r (r.setSession { s with text := (change.apply s.text).1 }) :=
      .single (.edited hopen)
    have hamends := amends_setSession { s with text := (change.apply s.text).1 } r
    have hnow : (r.setSession { s with text := (change.apply s.text).1 }).session? s.uri =
        some { s with text := (change.apply s.text).1 } := by
      rw [session?_setSession, if_pos rfl]
    generalize r.setSession { s with text := (change.apply s.text).1 } = r₁ at hset hamends hnow ⊢
    have hsend := quiet_sendChange s.file ((change.apply s.text).2.getD (wholeRange s.text))
      change.text r₁
    split
    · rename_i heq
      rw [heq] at hsend
      exact ⟨hset.trans hsend.steps, hamends.trans hsend.amends⟩
    · rename_i heq
      rw [heq] at hsend
      obtain ⟨hrest, hamended⟩ := ih (s := { s with text := (change.apply s.text).1 })
        (by rw [hsend.session?]; exact hnow)
      exact ⟨(hset.trans hsend.steps).trans hrest, (hamends.trans hsend.amends).trans hamended⟩

theorem steps_changeWhole {s : Session} (changes : List TextChange)
    (hopen : r.session? s.uri = some s) :
    Steps uris r (changeWhole s changes r).1 ∧ Amends r (changeWhole s changes r).1 := by
  unfold changeWhole
  exact ⟨.trans (.single (.edited hopen)) (quiet_sendChange _ _ _ _).steps,
    (amends_setSession _ r).trans (quiet_sendChange _ _ _ _).amends⟩

theorem steps_changeAll {s : Session} (changes : List TextChange)
    (hopen : r.session? s.uri = some s) :
    Steps uris r (changeAll s changes r) ∧ Amends r (changeAll s changes r) := by
  unfold changeAll
  split
  · exact steps_changeWhole changes hopen
  · exact steps_changeEach changes hopen

/-- Changing an open document amends it, and ends in telling its checks of the
change. -/
theorem changeDocument_split {s : Session} (hopen : r.session? uri = some s) (hkey : s.uri = uri)
    (version : Int) (changes : List TextChange) :
    ∃ r₁, Steps uris r r₁ ∧ Amends r r₁ ∧
      (r.changeDocument uri version changes).1 = (r₁.invalidate uri).1 := by
  cases hkey
  have hwarned : Quiet r (r.checkVersion s.uri s version) := by
    rcases checkVersion_cases s.uri s version r with heq | ⟨text, heq⟩ <;> rw [heq]
    · exact .refl r
    · exact quiet_log _ _ r
  rw [changeDocument_of_open hopen]
  generalize r.checkVersion s.uri s version = r₀ at hwarned ⊢
  have hset : Steps uris r (r₀.setSession { s with version }) :=
    hwarned.steps.tail (.edited (by rw [hwarned.session?, hopen]))
  have hnow : (r₀.setSession { s with version }).session? s.uri = some { s with version } := by
    rw [session?_setSession, if_pos rfl]
  obtain ⟨hchanged, hamended⟩ : Steps uris _ _ ∧ Amends _ _ :=
    steps_changeAll (s := { s with version }) changes hnow
  exact ⟨_, hset.trans hchanged,
    (hwarned.amends.trans (amends_setSession _ r₀)).trans hamended, rfl⟩

theorem steps_changeDocument (hkey : ∀ s, r.session? uri = some s → s.uri = uri) (version : Int)
    (changes : List TextChange) : Steps uris r (r.changeDocument uri version changes).1 := by
  cases hopen : r.session? uri with
  | none =>
    rw [changeDocument_of_not_open hopen]
  | some s =>
    obtain ⟨r₁, hsteps, -, heq⟩ := changeDocument_split hopen (hkey s hopen) version changes
    rw [heq]
    exact hsteps.trans (steps_invalidate uri r₁)

/-- Closing an open document forgets it, and then tells of that alone. -/
theorem quiet_closeDocument {s : Session} (hopen : r.session? uri = some s) :
    Quiet (forget uri { r with sessions := Table.erase uri r.sessions })
      (r.closeDocument uri).1 := by
  rw [closeDocument_of_open hopen]
  exact quiet_notify Service.closeName (by decide) _ _

theorem steps_closeDocument (uri : String) (r : Relay) : Steps uris r (r.closeDocument uri).1 := by
  cases hopen : r.session? uri with
  | none =>
    rw [closeDocument_of_not_open hopen]
  | some s => exact .trans (.single .closed) (quiet_closeDocument hopen).steps

/-- A call that asks begins a generation unless one runs, and then waits. -/
theorem steps_requestCheck (uri : String) (waiter : Nat) (r : Relay) :
    Steps uris r (r.requestCheck uri waiter).1 := by
  unfold requestCheck
  cases hopen : r.session? uri with
  | none => exact .refl
  | some s =>
    have henrolled : Steps uris r (r.enroll uri s.file).1 ∧
        (r.enroll uri s.file).1.check? uri = some (r.enroll uri s.file).2 := by
      unfold enroll
      cases hcheck : r.check? uri with
      | some c => exact ⟨.refl, hcheck⟩
      | none => exact ⟨.single (.enrolled hopen hcheck), by simp [check?, setCheck, Table.get?_put]⟩
    simp only []
    generalize r.enroll uri s.file = enrolled at henrolled ⊢
    obtain ⟨r₁, c⟩ := enrolled
    obtain ⟨hsteps, hcheck⟩ := henrolled
    simp only [List.isEmpty_iff] at hsteps hcheck ⊢
    split
    · rename_i hout
      split
      · exact hsteps
      · rename_i hfresh
        cases hup : r₁.link.refusal? with
        | some cause =>
          rw [startGeneration_of_refused cause hup]
          exact hsteps.tail (.quiet (quiet_takeSeq r₁))
        | none =>
          rw [startGeneration_of_taken hup]
          refine (hsteps.tail (.asked hcheck hup (.inl ⟨hout, by simpa using hfresh⟩))).tail
            (.awaited (c := c.asked r₁.setup.categories r₁.nextSeq) ?_ ?_)
          · simp [check?, setCheck, Table.get?_put]
          · by_cases hcategories : r₁.setup.categories = []
            · exact .inr hcategories
            · exact .inl (CheckState.asked_awaits hcategories _ c)
    · rename_i hout
      exact hsteps.tail (.awaited hcheck (.inl hout))

/-! ## Asking for diagnostics -/

/-- A document has a record of checks: the one it had, or a new one. -/
structure Enrolled (uri file : String) (r r' : Relay) (c : CheckState) : Prop where
  records : ∀ u, r'.check? u = if uri = u then some c else r.check? u
  before : r.check? uri = some c ∨ r.check? uri = none ∧ c = CheckState.new file
  link : r'.link = r.link
  setup : r'.setup = r.setup
  outbox : r'.outbox = r.outbox

theorem enrolled_enroll (uri file : String) (r : Relay) :
    Enrolled uri file r (r.enroll uri file).1 (r.enroll uri file).2 := by
  unfold enroll
  cases hcheck : r.check? uri with
  | some c =>
    refine ⟨fun u => (ite_eq_right_iff.mpr ?_).symm, .inl hcheck, rfl, rfl, rfl⟩
    rintro rfl
    exact hcheck.symm
  | none => exact ⟨check?_setCheck uri _ r, .inr ⟨hcheck, rfl⟩, rfl, rfl, rfl⟩

/-- **What a call that asks for diagnostics leads to.** -/
inductive Asking (uri : String) (waiter : Nat) (r : Relay) :
    Relay → Except Failure Bool → Prop where
  | unopened (hnone : r.session? uri = none) :
      Asking uri waiter r r (.error (.invalidState (.notOpen "diagnostics" uri)))
  /-- What is published is current. -/
  | current {c : CheckState} (hcheck : r.check? uri = some c) (hout : c.outstanding = [])
      (hfresh : c.fresh = true) : Asking uri waiter r r (.ok false)
  /-- A generation runs, and the call waits for it. -/
  | joined {c : CheckState} (hcheck : r.check? uri = some c) (hawaited : c.outstanding ≠ []) :
      Asking uri waiter r (r.addWaiter uri waiter) (.ok true)
  | refused {r₁ : Relay} {c : CheckState} {file : String} {cause : Closure}
      (henrolled : Enrolled uri file r r₁ c) (hout : c.outstanding = [])
      (hrefused : r.link.refusal? = some cause) :
      Asking uri waiter r r₁.takeSeq (.error (.closed cause))
  /-- A generation begins, and the call waits for it. -/
  | begun {r₁ : Relay} {c : CheckState} {file : String}
      (henrolled : Enrolled uri file r r₁ c) (hout : c.outstanding = []) (hfresh : c.fresh = false)
      (htaken : r.link.refusal? = none) :
      Asking uri waiter r
        (((r₁.wrote c.file).setCheck uri (c.asked r.setup.categories r.nextSeq)).addWaiter uri
          waiter)
        (.ok true)

theorem asking_requestCheck (uri : String) (waiter : Nat) (r : Relay) :
    Asking uri waiter r (r.requestCheck uri waiter).1 (r.requestCheck uri waiter).2 := by
  unfold requestCheck
  cases hopen : r.session? uri with
  | none => exact .unopened hopen
  | some s =>
    have henrolled := enrolled_enroll uri s.file r
    simp only []
    generalize hr₁ : r.enroll uri s.file = enrolled at henrolled ⊢
    obtain ⟨r₁, c⟩ := enrolled
    simp only [List.isEmpty_iff] at henrolled ⊢
    -- a record there was is the record there is, and enrolling does nothing
    have hsame : c ≠ CheckState.new s.file → r.check? uri = some c ∧ r₁ = r := by
      intro hne
      have hcheck := henrolled.before.resolve_right fun h => hne h.2
      rw [enroll, hcheck] at hr₁
      exact ⟨hcheck, (congrArg Prod.fst hr₁).symm⟩
    split
    · rename_i hout
      split
      · rename_i hfresh
        obtain ⟨hcheck, rfl⟩ := hsame fun h => by simp [h, CheckState.new] at hfresh
        exact .current hcheck hout hfresh
      · rename_i hfresh
        cases hup : r₁.link.refusal? with
        | some cause =>
          rw [startGeneration_of_refused cause hup]
          exact .refused henrolled hout (henrolled.link ▸ hup)
        | none =>
          rw [startGeneration_of_taken hup, henrolled.setup]
          have hnext : r₁.nextSeq = r.nextSeq := by rw [nextSeq, henrolled.link, nextSeq]
          rw [hnext]
          exact .begun henrolled hout (by simpa using hfresh) (henrolled.link ▸ hup)
    · rename_i hout
      obtain ⟨hcheck, rfl⟩ := hsame fun h => hout (by rw [h]; rfl)
      exact .joined hcheck hout

/-- One more waiter leaves the checks in flight. -/
theorem check?_addWaiter (uri : String) (waiter : Nat) (r : Relay) (u : String) :
    (r.addWaiter uri waiter).check? u =
      if uri = u then (r.check? u).map fun c => { c with waiters := c.waiters ++ [⟨waiter, false⟩] }
      else r.check? u :=
  Table.get?_update ..

/-- A generation that begins for a call sets the record of its document. -/
theorem check?_begun {file : String} (h : Enrolled uri file r r' c) (categories : List String)
    (seq waiter : Nat) (u : String) :
    (((r'.wrote c.file).setCheck uri (c.asked categories seq)).addWaiter uri waiter).check? u =
      if uri = u then
        some { c.asked categories seq with waiters := c.waiters ++ [⟨waiter, false⟩] }
      else r.check? u := by
  rw [check?_addWaiter, check?_setCheck]
  split
  · rfl
  · rename_i hu
    exact (h.records u).trans (if_neg hu)

/-! ## Moves -/

/-- What a message tells of checks, if anything. -/
def messageNews? (message : Json) : Option News :=
  match Service.Message.ofJson message with
  | .ok (.event event) => newsOf? event
  | _ => none

/-- The news of checks a move takes in. -/
def Move.news? : Move → Option News
  | receive message => messageNews? message
  | _ => none

/-- A message without news of checks is quiet. -/
theorem quiet_receive {message : Json} (h : messageNews? message = none) (r : Relay) :
    Quiet r (r.receive message).1 := by
  unfold receive messageNews? at *
  split
  · exact quiet_log _ _ r
  · exact quiet_resolve _ r
  · rename_i event heq
    rw [heq] at h
    simp only [handleEvent_eq, h, Option.elim_none]
    exact quiet_emit (by simp [Effect.OfChecks]) r

/-- A message with news does what the news lead to, and then nothing more to
checks. -/
theorem receive_of_news {message : Json} {note : News} (h : messageNews? message = some note)
    (r : Relay) :
    Quiet (r.hear note).1 (r.receive message).1 ∧ (r.receive message).2 = (r.hear note).2 := by
  unfold receive messageNews? at *
  split
  · rename_i heq
    simp [heq] at h
  · rename_i heq
    simp [heq] at h
  · rename_i event heq
    rw [heq] at h
    simp only [handleEvent_eq, h, Option.elim_some]
    split
    · rename_i heq
      rw [heq]
      exact ⟨.refl _, rfl⟩
    · rename_i heq
      rw [heq]
      exact ⟨quiet_emit (by simp [Effect.OfChecks]) _, rfl⟩

/-- The move has nothing to do with documents or calls that wait. -/
def Move.Incidental : Move → Prop
  | schedule _ | fire .. | notify .. | ask .. | withdraw _ | unlist _ | receive _ => True
  | _ => False

/-- Such a move is quiet, unless it takes in news of checks. -/
theorem quiet_perform {m : Move} (hm : m.Incidental) (hnews : m.news? = none) (r : Relay) :
    Quiet r (m.perform r).1 := by
  have hplain : ∀ {name : String}, name ∉ documentCommands → name ≠ Service.errorCheckName := by
    rintro name hname rfl
    exact hname (by simp [documentCommands])
  cases m with
  | schedule uri => exact quiet_schedule uri r
  | fire uri timer => exact quiet_fire uri timer r
  | notify name arguments plain => exact quiet_notify name (hplain plain) arguments r
  | ask name arguments plain => exact quiet_ask (hplain plain) arguments r
  | withdraw seq => exact .of_effects rfl (Nat.le_refl _) (.of_outbox_eq rfl)
  | unlist seq => exact .of_effects rfl (Nat.le_refl _) (.of_outbox_eq rfl)
  | receive message => exact quiet_receive hnews r
  | _ => exact hm.elim

/-- A second closing of the connection does nothing. -/
theorem disconnect_of_closed (hclosed : r.link.closed ≠ none) (cause : Closure) :
    r.disconnect cause = r := by
  unfold disconnect
  exact if_pos (Option.isSome_iff_ne_none.mpr hclosed)

/-- **A move without news of checks is a chain of steps**, where sessions are
kept under their own URIs. -/
theorem steps_perform {m : Move} (hnews : m.news? = none)
    (hmem : ∀ uri ∈ openedUris [m], uri ∈ uris)
    (hkey : ∀ uri s, r.session? uri = some s → s.uri = uri) : Steps uris r (m.perform r).1 := by
  have hincidental : m.Incidental → Steps uris r (m.perform r).1 :=
    fun hm => (quiet_perform hm hnews r).steps
  cases m with
  | openDocument uri languageId version content =>
    exact steps_openDocument (hmem uri (by simp [openedUris])) languageId version content r
  | changeDocument uri version changes => exact steps_changeDocument (hkey uri) version changes
  | closeDocument uri => exact steps_closeDocument uri r
  | requestCheck uri waiter => exact steps_requestCheck uri waiter r
  | withdrawWaiter waiter => exact .single .withdrew
  | disconnect cause =>
    by_cases hclosed : r.link.closed = none
    · exact .single (.disconnected hclosed)
    · change Steps uris r (r.disconnect cause)
      rw [disconnect_of_closed hclosed]
  | _ => exact hincidental trivial

/-- **A move with news of checks does what the news lead to**, and then
nothing more to checks. -/
theorem perform_of_news {m : Move} {note : News} (hnews : m.news? = some note) (r : Relay) :
    Quiet (r.hear note).1 (m.perform r).1 ∧ (m.perform r).2 = (r.hear note).2 := by
  cases m with
  | receive message => exact receive_of_news hnews r
  | _ => simp [Move.news?] at hnews

end Relay

end LanguageRelay
