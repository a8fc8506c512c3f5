import LanguageRelay.Proofs.Checks.Steps
/-!
# How operations conduct themselves

Whatever an operation of a relay does, it *abides* by some rules (`Abides`):
commands are numbered on and written over an open connection alone, nothing is
published over a closed one, no command is answered, and a call is released
only together with all that wait for the same document. Which commands are
written is a parameter.

Two things that happen to a relay are not of this kind. A response answers a
command (`resolve_eq`), and the closing of the connection answers and releases
all (`disconnect_of_open`).
-/

namespace LanguageRelay

/-- What an operation may do to the world outside: over an open connection it
writes commands that satisfy `P` and publishes; it never answers a command, and
closes nothing. -/
def Effect.Allowed (up : Prop) (P : Service.Command → Prop) : Effect → Prop
  | .sent c => up ∧ P c
  | .published .. => up
  | .answered .. | .closed _ => False
  | _ => True

/-- A call that waits for diagnostics was told. -/
def Effect.Releases : Effect → Prop
  | .released .. => True
  | _ => False

namespace Relay

variable {P Q : Service.Command → Prop} {whole : Prop} {r r' r'' : Relay}
variable {uri : String} {c c' : CheckState} {id : Nat}

/-- A call that was not given up waits for the diagnostics of a document. -/
def Listed (r : Relay) (uri : String) (id : Nat) : Prop :=
  ∃ c, r.check? uri = some c ∧ ⟨id, false⟩ ∈ c.waiters

/-- **The operation abides by the rules.** Where it is `whole`, no call is
lost: one that waited does so still, or was released. -/
structure Abides (P : Service.Command → Prop) (whole : Prop) (r r' : Relay) : Prop where
  setup : r'.setup = r.setup
  link : r'.link = { r.link with last := r'.link.last }
  last : r.link.last ≤ r'.link.last
  listed : ∀ uri id, r'.Listed uri id → r.Listed uri id
  added : ∃ fx, r'.outbox = r.outbox ++ fx ∧ (∀ e ∈ fx, e.Allowed (r.link.closed = none) P) ∧
    (∀ id o, .released id o ∈ fx → ∃ uri, r.Listed uri id ∧ ∀ id', ¬ r'.Listed uri id') ∧
    (whole → ∀ uri id, r.Listed uri id → r'.Listed uri id ∨ ∃ o, .released id o ∈ fx)

theorem Abides.closed (h : Abides P whole r r') : r'.link.closed = r.link.closed := by rw [h.link]

theorem Abides.pending (h : Abides P whole r r') : r'.link.pending = r.link.pending := by
  rw [h.link]

theorem Abides.trans (h : Abides P whole r r') (h' : Abides P whole r' r'') :
    Abides P whole r r'' := by
  obtain ⟨fx, hfx, hallowed, hreleased, hwhole⟩ := h.added
  obtain ⟨fy, hfy, hallowed', hreleased', hwhole'⟩ := h'.added
  refine ⟨h'.setup.trans h.setup, by rw [h'.link, h.link], Nat.le_trans h.last h'.last,
    fun uri id hid => h.listed uri id (h'.listed uri id hid), fx ++ fy,
    by rw [hfy, hfx, List.append_assoc], fun e he => ?_, fun id o ho => ?_, fun hw uri id hid => ?_⟩
  · rcases List.mem_append.mp he with he | he
    · exact hallowed e he
    · exact h.closed ▸ hallowed' e he
  · rcases List.mem_append.mp ho with ho | ho
    · obtain ⟨uri, hid, hnone⟩ := hreleased id o ho
      exact ⟨uri, hid, fun id' hid' => hnone id' (h'.listed uri id' hid')⟩
    · obtain ⟨uri, hid, hnone⟩ := hreleased' id o ho
      exact ⟨uri, h.listed uri id hid, hnone⟩
  · rcases hwhole hw uri id hid with hid | ⟨o, ho⟩
    · rcases hwhole' hw uri id hid with hid | ⟨o, ho⟩
      · exact .inl hid
      · exact .inr ⟨o, List.mem_append_right _ ho⟩
    · exact .inr ⟨o, List.mem_append_left _ ho⟩

/-- An operation is whole if something holds that makes it so. -/
theorem Abides.of_whole {whole' : Prop} (himp : whole' → whole) (h : Abides P whole r r') :
    Abides P whole' r r' := by
  obtain ⟨fx, hfx, hallowed, hreleased, hwhole⟩ := h.added
  exact ⟨h.setup, h.link, h.last, h.listed, fx, hfx, hallowed, hreleased,
    fun hw => hwhole (himp hw)⟩

/-! ## Operations that release nobody -/

/-- Where the same calls wait and none is released, the rules ask for effects
that are allowed. -/
theorem Abides.of_listed (fx : List Effect) (hsetup : r'.setup = r.setup)
    (hlink : r'.link = { r.link with last := r'.link.last }) (hlast : r.link.last ≤ r'.link.last)
    (hlisted : ∀ uri id, r'.Listed uri id ↔ r.Listed uri id)
    (houtbox : r'.outbox = r.outbox ++ fx)
    (hfx : ∀ e ∈ fx, e.Allowed (r.link.closed = none) P ∧ ¬ e.Releases) :
    Abides P whole r r' where
  setup := hsetup
  link := hlink
  last := hlast
  listed uri id := (hlisted uri id).mp
  added := ⟨fx, houtbox, fun e he => (hfx e he).1, fun _ _ ho => absurd trivial (hfx _ ho).2,
    fun _ uri id hid => .inl ((hlisted uri id).mpr hid)⟩

/-- Checks that are as before have the same calls waiting. -/
theorem listed_of_checks (h : r'.checks = r.checks) (uri : String) (id : Nat) :
    r'.Listed uri id ↔ r.Listed uri id := by
  rw [Listed, check?, h]
  rfl

theorem Abides.of_checks (fx : List Effect) (hsetup : r'.setup = r.setup)
    (hlink : r'.link = { r.link with last := r'.link.last }) (hlast : r.link.last ≤ r'.link.last)
    (hchecks : r'.checks = r.checks) (houtbox : r'.outbox = r.outbox ++ fx)
    (hfx : ∀ e ∈ fx, e.Allowed (r.link.closed = none) P ∧ ¬ e.Releases) : Abides P whole r r' :=
  .of_listed fx hsetup hlink hlast (listed_of_checks hchecks) houtbox hfx

/-- Changes of anything but the connection, the checks and the outbox do not
matter. -/
theorem Abides.of_same (h : r'.setup = r.setup ∧ r'.link = r.link ∧ r'.checks = r.checks ∧
    r'.outbox = r.outbox) : Abides P whole r r' := by
  obtain ⟨hsetup, hlink, hchecks, houtbox⟩ := h
  exact .of_checks [] hsetup (by rw [hlink]) (Nat.le_of_eq (by rw [hlink])) hchecks
    (by simp [houtbox]) (by simp)

theorem Abides.refl (P : Service.Command → Prop) (whole : Prop) (r : Relay) :
    Abides P whole r r :=
  .of_same ⟨rfl, rfl, rfl, rfl⟩

theorem abides_emit {e : Effect} (h : e.Allowed (r.link.closed = none) P ∧ ¬ e.Releases) :
    Abides P whole r (r.emit e) :=
  .of_checks [e] rfl rfl (Nat.le_refl _) rfl rfl (by simpa using h)

theorem abides_log (level : LogLevel) (text : String) (r : Relay) :
    Abides P whole r (r.log level text) :=
  abides_emit ⟨trivial, id⟩

theorem abides_takeSeq (r : Relay) : Abides P whole r r.takeSeq :=
  .of_checks [] rfl rfl (Nat.le_succ _) rfl (by simp [takeSeq]) (by simp)

/-- A command that is written satisfies what is asked of commands. -/
theorem abides_notify {name : String} {arguments : Json} (h : ∀ seq, P ⟨seq, name, arguments⟩)
    (r : Relay) : Abides P whole r (r.notify name arguments).1 := by
  cases htaken : r.link.refusal? with
  | some cause =>
    rw [notify_of_refused htaken]
    exact abides_takeSeq r
  | none =>
    have hup := Link.closed_of_taken htaken
    rw [notify_of_taken htaken]
    exact (abides_takeSeq r).trans (abides_emit ⟨⟨hup, h _⟩, id⟩)

/-- The calls that wait for a document may be told from its record. -/
theorem listed_iff (h : r.check? uri = some c) (id : Nat) :
    r.Listed uri id ↔ ⟨id, false⟩ ∈ c.waiters := by
  simp [Listed, h]

/-- A record may be set, if the same calls wait. -/
theorem abides_setCheck (h : ∀ id, ⟨id, false⟩ ∈ c'.waiters ↔ r.Listed uri id) :
    Abides P whole r (r.setCheck uri c') := by
  refine .of_listed [] rfl rfl (Nat.le_refl _) (fun u id => ?_) (by simp [setCheck]) (by simp)
  rw [Listed, check?_setCheck]
  split
  · rename_i hu
    simp [← hu, h]
  · rfl

/-- All records may change, if the same calls wait. -/
theorem abides_mapChecks {f : CheckState → CheckState} (h : ∀ c, (f c).waiters = c.waiters) :
    Abides P whole r (r.mapChecks f) := by
  refine .of_listed [] rfl rfl (Nat.le_refl _) (fun u id => ?_) (by simp [mapChecks]) (by simp)
  simp [Listed, check?_mapChecks, h]

theorem abides_wrote (hup : r.link.closed = none) {file : String}
    (h : ∀ seq, P ⟨seq, Service.errorCheckName, checkArguments file⟩) :
    Abides P whole r (r.wrote file) :=
  (abides_takeSeq r).trans (abides_emit ⟨⟨hup, h _⟩, id⟩)

theorem abides_startGeneration (h : ∀ seq, P ⟨seq, Service.errorCheckName, checkArguments c.file⟩)
    (hwaiters : ∀ id, ⟨id, false⟩ ∈ c.waiters ↔ r.Listed uri id) :
    Abides P whole r (r.startGeneration uri c).1 := by
  cases htaken : r.link.refusal? with
  | some cause =>
    rw [startGeneration_of_refused cause htaken]
    exact abides_takeSeq r
  | none =>
    rw [startGeneration_of_taken htaken]
    exact (abides_wrote (Link.closed_of_taken htaken) h).trans (abides_setCheck hwaiters)

theorem abides_invalidate (h : ∀ seq u c, r.check? u = some c →
      P ⟨seq, Service.errorCheckName, checkArguments c.file⟩) (uri : String) :
    Abides P whole r (r.invalidate uri).1 := by
  have hstale : Abides P whole r r.stale := abides_mapChecks fun _ => rfl
  unfold invalidate
  simp only []
  cases hcheck : r.stale.check? uri with
  | none => exact hstale
  | some c =>
    obtain ⟨d, hd, rfl⟩ := Option.map_eq_some_iff.mp ((check?_mapChecks _ r uri).symm.trans hcheck)
    have hwaiters := fun id => (listed_iff hcheck id).symm
    simp only []
    split
    · exact hstale
    · split
      · exact hstale.trans (abides_setCheck hwaiters)
      · exact hstale.trans (abides_startGeneration (fun seq => h seq uri d hd) hwaiters)

/-! ## Asking for a check -/

theorem abides_enroll (uri file : String) (r : Relay) :
    Abides P whole r (r.enroll uri file).1 ∧
      (r.enroll uri file).1.check? uri = some (r.enroll uri file).2 ∧
      ((r.enroll uri file).2.file = file ∨ r.check? uri = some (r.enroll uri file).2) := by
  unfold enroll
  cases hcheck : r.check? uri with
  | some c => exact ⟨.refl P whole r, hcheck, .inr rfl⟩
  | none =>
    have hset : Abides P whole r (r.setCheck uri (CheckState.new file)) :=
      abides_setCheck fun id => by simp [Listed, hcheck, CheckState.new]
    exact ⟨hset.trans (.of_same ⟨rfl, rfl, rfl, rfl⟩), by simp [check?, setCheck, Table.get?_put],
      .inl rfl⟩

/-- A generation that begins leaves its document with a record. -/
theorem check?_startGeneration (h : (r.check? uri).isSome) (c : CheckState) :
    ((r.startGeneration uri c).1.check? uri).isSome := by
  cases htaken : r.link.refusal? with
  | some cause =>
    rw [startGeneration_of_refused cause htaken]
    exact h
  | none =>
    rw [startGeneration_of_taken htaken, check?_setCheck, if_pos rfl]
    rfl

/-- **A call that asks abides by the rules**, up to its own waiting. It waits
only for a document with a record of checks. -/
theorem requestCheck_split (whole : Prop)
    (hsession : ∀ seq s, r.session? uri = some s →
      P ⟨seq, Service.errorCheckName, checkArguments s.file⟩)
    (h : ∀ seq c, r.check? uri = some c → P ⟨seq, Service.errorCheckName, checkArguments c.file⟩)
    (waiter : Nat) :
    ∃ r₁, Abides P whole r r₁ ∧
      ((r.requestCheck uri waiter).2 ≠ .ok true ∧ (r.requestCheck uri waiter).1 = r₁ ∨
        (r.requestCheck uri waiter).2 = .ok true ∧ (r₁.check? uri).isSome ∧
          (r.requestCheck uri waiter).1 = r₁.addWaiter uri waiter) := by
  unfold requestCheck
  cases hopen : r.session? uri with
  | none => exact ⟨r, .refl P whole r, .inl ⟨by simp, rfl⟩⟩
  | some s =>
    simp only []
    have henroll : Abides P whole r (r.enroll uri s.file).1 ∧ _ := abides_enroll uri s.file r
    generalize r.enroll uri s.file = enrolled at henroll ⊢
    obtain ⟨r₁, c⟩ := enrolled
    obtain ⟨henrolled, hcheck, hfile⟩ := henroll
    simp only [] at henrolled hcheck hfile ⊢
    have hask : ∀ seq, P ⟨seq, Service.errorCheckName, checkArguments c.file⟩ := fun seq =>
      hfile.elim (fun hfile => hfile ▸ hsession seq s hopen) fun hcheck => h seq c hcheck
    have hstarted : Abides P whole r₁ (r₁.startGeneration uri c).1 :=
      abides_startGeneration hask fun id => (listed_iff hcheck id).symm
    have hrecord := check?_startGeneration (by rw [hcheck]; rfl) c
    split
    · split
      · exact ⟨r₁, henrolled, .inl ⟨by simp, rfl⟩⟩
      · split
        · rename_i heq
          rw [heq] at hstarted
          exact ⟨_, henrolled.trans hstarted, .inl ⟨by simp, rfl⟩⟩
        · rename_i heq
          rw [heq] at hstarted hrecord
          exact ⟨_, henrolled.trans hstarted, .inr ⟨rfl, hrecord, rfl⟩⟩
    · exact ⟨r₁, henrolled, .inr ⟨rfl, by rw [hcheck]; rfl, rfl⟩⟩

/-- One more call waits for the document. -/
theorem listed_addWaiter (h : (r.check? uri).isSome) (waiter : Nat) (u : String) (id : Nat) :
    (r.addWaiter uri waiter).Listed u id ↔ r.Listed u id ∨ u = uri ∧ id = waiter := by
  obtain ⟨c, hc⟩ := Option.isSome_iff_exists.mp h
  rw [Listed, Listed, addWaiter, mapCheck, check?, Table.get?_update]
  by_cases hu : uri = u
  · subst hu
    have hget : Table.get? uri r.checks = some c := hc
    simp [hget, check?]
  · simp [hu, check?, Ne.symm hu]

/-! ## Timers -/

theorem abides_disarm (uri : String) (r : Relay) : Abides P whole r (r.disarm uri) := by
  unfold disarm
  split
  · exact .refl P whole r
  · exact .of_checks [_] rfl rfl (Nat.le_refl _) rfl rfl
      (by simp [Effect.Allowed, Effect.Releases])

theorem abides_schedule (uri : String) (r : Relay) : Abides P whole r (r.schedule uri) :=
  (abides_disarm uri r).trans
    (.of_checks [_] rfl rfl (Nat.le_refl _) rfl rfl (by simp [Effect.Allowed, Effect.Releases]))

theorem abides_fire (uri : String) (timer : Nat) (r : Relay) :
    Abides P whole r (r.fire uri timer).1 := by
  unfold fire
  split
  · exact .of_same ⟨rfl, rfl, rfl, rfl⟩
  · exact .refl P whole r

/-! ## Operations that release -/

/-- Waiters that are released are those listed. -/
theorem mem_releases {ws : List Waiter} {id : Nat} {o o' : Except Failure Unit} :
    .released id o' ∈ releases o ws ↔ ⟨id, false⟩ ∈ ws ∧ o = o' := by
  simp only [releases, List.mem_map, List.mem_filter, Bool.not_eq_true']
  constructor
  · rintro ⟨⟨i, settled⟩, ⟨hw, hopen⟩, heq⟩
    cases hopen
    cases heq
    exact ⟨hw, rfl⟩
  · rintro ⟨hw, rfl⟩
    exact ⟨⟨id, false⟩, ⟨hw, rfl⟩, rfl⟩

/-- Nobody waits for a document that was forgotten. -/
theorem listed_forget (uri : String) (r : Relay) (u : String) (id : Nat) :
    (r.forget uri).Listed u id ↔ uri ≠ u ∧ r.Listed u id := by
  rw [Listed, check?_forget]
  split
  · rename_i hu
    simp [hu]
  · rename_i hu
    simp [hu, Listed]

/-- Where a document's waiters are all released, the rules ask for effects
that are allowed. -/
theorem Abides.of_released (fx : List Effect) (o : Except Failure Unit)
    (hcheck : r.check? uri = some c) (hsetup : r'.setup = r.setup) (hlink : r'.link = r.link)
    (hlisted : ∀ u id, r'.Listed u id ↔ uri ≠ u ∧ r.Listed u id)
    (houtbox : r'.outbox = r.outbox ++ (fx ++ releases o c.waiters))
    (hfx : ∀ e ∈ fx, e.Allowed (r.link.closed = none) P ∧ ¬ e.Releases) :
    Abides P whole r r' where
  setup := hsetup
  link := by rw [hlink]
  last := Nat.le_of_eq (by rw [hlink])
  listed u id hid := ((hlisted u id).mp hid).2
  added := by
    refine ⟨_, houtbox, fun e he => ?_, fun id o' ho => ?_, fun _ u id hid => ?_⟩
    · rcases List.mem_append.mp he with he | he
      · exact (hfx e he).1
      · obtain ⟨w, -, rfl⟩ := List.mem_map.mp he
        exact trivial
    · rcases List.mem_append.mp ho with ho | ho
      · exact absurd trivial (hfx _ ho).2
      · exact ⟨uri, (listed_iff hcheck id).mpr (mem_releases.mp ho).1,
          fun id' hid' => ((hlisted uri id').mp hid').1 rfl⟩
    · by_cases hu : uri = u
      · subst hu
        exact .inr ⟨o, List.mem_append_right _
          (mem_releases.mpr ⟨(listed_iff hcheck id).mp hid, rfl⟩)⟩
      · exact .inl ((hlisted u id).mpr ⟨hu, hid⟩)

theorem abides_forget (uri : String) (r : Relay) : Abides P whole r (r.forget uri) := by
  cases hcheck : r.check? uri with
  | none =>
    rw [forget_of_none hcheck]
    exact abides_disarm uri r
  | some c =>
    have hdisarm := quiet_disarm uri r
    have hcheck' : (r.disarm uri).check? uri = some c := by rw [hdisarm.check?, hcheck]
    have hreleased : Abides P whole (r.disarm uri) (r.forget uri) := by
      refine .of_released [] (.ok ()) hcheck' ?_ ?_ (fun u id => ?_) (by rw [forget_of_some hcheck]; rfl)
        (by simp)
      · rw [(leaves_forget uri r).setup, hdisarm.setup]
      · rw [forget_of_some hcheck]
      · rw [listed_forget, listed_of_checks hdisarm.checks]
    exact (abides_disarm uri r).trans hreleased

/-- Settling releases the waiters of its document, unless an entry fails. -/
theorem abides_settle {d : CheckState} (hup : r.link.closed = none)
    (hcheck : r.check? uri = some d) (hwaiters : c.waiters = d.waiters) :
    Abides P ((r.settle uri c).2 = none) r (r.settle uri c).1 := by
  have hlisted : ∀ (c' : CheckState) (r' : Relay), c'.waiters = [] →
      r'.checks = Table.put uri c' r.checks → ∀ u id, r'.Listed u id ↔ uri ≠ u ∧ r.Listed u id := by
    intro c' r' hnone hchecks u id
    rw [Listed, check?_put hchecks]
    split
    · rename_i hu
      simp [hu, hnone]
    · rename_i hu
      simp [hu, Listed, check?]
  have hskips : ∀ faults : List ProtocolFault, ∀ e ∈ faults.map (skipLine uri),
      e.Allowed (r.link.closed = none) P ∧ ¬ e.Releases := by
    intro faults e he
    obtain ⟨fault, -, rfl⟩ := List.mem_map.mp he
    exact ⟨trivial, id⟩
  cases hopen : r.session? uri with
  | none =>
    rw [settle_of_closed hopen]
    exact .of_released [] (.ok ()) hcheck rfl rfl (hlisted c.ended _ rfl rfl) (by simp [hwaiters]) (by simp)
  | some s =>
    obtain ⟨faults, result, hentries⟩ : ∃ faults result,
        Diagnostic.ofEntries (mergedEntries r.setup.categories c.merged) = (faults, result) :=
      ⟨_, _, rfl⟩
    cases result with
    | ok diagnostics =>
      rw [settle_of_ok hopen hentries]
      refine .of_released (faults.map (skipLine uri) ++ [.published uri diagnostics
        (some s.version)]) (.ok ()) hcheck rfl rfl (hlisted { c.ended with fresh := true } _ rfl rfl)
        (by simp [hwaiters]) fun e he => ?_
      rcases List.mem_append.mp he with he | he
      · exact hskips faults e he
      · cases List.mem_singleton.mp he
        exact ⟨hup, id⟩
    | error e =>
      rw [settle_of_error hopen hentries]
      exact ⟨rfl, rfl, Nat.le_refl _, fun u id hid => ((hlisted c.ended _ rfl rfl u id).mp hid).2,
        _, rfl, fun e he => (hskips faults e he).1,
        fun _ _ ho => absurd trivial (hskips faults _ ho).2, fun hw => by simp at hw⟩

/-! ## Messages -/

/-- A check that completes changes no waiters. -/
theorem abides_completed (seq : Int) (hcheck : r.check? uri = some c) :
    Abides P whole r (r.completed seq uri c) := by
  have hretired : Abides P whole r (r.retireAbandoned seq) := .of_same ⟨rfl, rfl, rfl, rfl⟩
  exact hretired.trans (abides_setCheck fun id => (listed_iff hcheck id).symm)

/-- **News of checks is taken in by the rules.** It is whole unless it fails. -/
theorem abides_heard {note : News} {failure : Option Failure} (hheard : Heard r note r' failure)
    (hsound : ∀ uri c, r.check? uri = some c → c.outstanding ≠ [] → r.link.closed = none)
    (hsingle : (Table.keys r.checks).Nodup)
    (h : ∀ seq u c, r.check? u = some c →
      P ⟨seq, Service.errorCheckName, checkArguments c.file⟩) :
    Abides P (failure = none) r r' := by
  have hfound : ∀ {seq : Int} {uri : String} {c : CheckState} {e : InFlight},
      findInFlight? seq r.checks = some (uri, c, e) → r.check? uri = some c := fun hfind =>
    (Table.get?_eq_some_iff hsingle).mpr (findInFlight?_some hfind).1
  cases hheard with
  | credited => exact .of_same ⟨rfl, rfl, rfl, rfl⟩
  | unawaited => exact .refl P _ r
  | outdated _ _ hcheck => exact abides_setCheck fun id => (listed_iff hcheck id).symm
  | counted _ _ hcheck => exact abides_setCheck fun id => (listed_iff hcheck id).symm
  | settled _ _ hcheck _ _ hawaited =>
    exact abides_settle (hsound _ _ hcheck (List.ne_nil_of_mem hawaited)) hcheck rfl
  | retired => exact .of_same ⟨rfl, rfl, rfl, rfl⟩
  | overtaken hfind => exact abides_completed _ (hfound hfind)
  | @repeated seq uri c e text hfind _ _ _ htaken =>
    have hcheck := hfound hfind
    have hnow : ((r.completed seq uri c).log .info text).check? uri = some (c.after seq) := by
      rw [(quiet_log _ _ _).check?, completed, check?_setCheck, if_pos rfl]
    have hup : ((r.completed seq uri c).log .info text).link.closed = none :=
      Link.closed_of_taken htaken
    exact (((abides_completed seq hcheck).trans (abides_log _ _ _)).trans
      (abides_wrote hup fun seq => h seq uri c hcheck)).trans
        (abides_setCheck fun id => (listed_iff hnow id).symm)
  | @severed seq uri c e text cause hfind =>
    have hcheck := hfound hfind
    have hretired : Abides P (some (Failure.closed cause) = none) r (r.retireAbandoned seq) :=
      .of_same ⟨rfl, rfl, rfl, rfl⟩
    have hset : Abides P (some (Failure.closed cause) = none) (r.retireAbandoned seq)
        ((r.retireAbandoned seq).setCheck uri (c.again seq)) :=
      abides_setCheck fun id => (listed_iff hcheck id).symm
    exact ((hretired.trans hset).trans (abides_log _ _ _)).trans (abides_takeSeq _)
  | @exhausted seq uri c e text hfind _ hawaited =>
    have hcheck := hfound hfind
    have hretired : ∀ whole, Abides P whole r (r.retireAbandoned seq) :=
      fun _ => .of_same ⟨rfl, rfl, rfl, rfl⟩
    exact ((hretired _).trans (abides_log _ _ _)).trans
      (abides_settle (hsound _ _ hcheck hawaited) hcheck rfl)

/-- A message that is no response abides by the rules. -/
theorem abides_receive {message : Json}
    (hmessage : ∀ response, Service.Message.ofJson message ≠ .ok (.response response))
    (hsound : ∀ uri c, r.check? uri = some c → c.outstanding ≠ [] → r.link.closed = none)
    (hsingle : (Table.keys r.checks).Nodup)
    (h : ∀ seq u c, r.check? u = some c →
      P ⟨seq, Service.errorCheckName, checkArguments c.file⟩) :
    Abides P ((r.receive message).2 = none) r (r.receive message).1 := by
  unfold receive
  split
  · exact abides_log _ _ r
  · rename_i response heq
    exact absurd heq (hmessage response)
  · rename_i event heq
    rw [handleEvent_eq]
    cases newsOf? event with
    | none => exact abides_emit ⟨trivial, id⟩
    | some note =>
      have hheard := abides_heard (heard_hear note r) hsound hsingle h
      simp only [Option.elim_some]
      split
      · rename_i heq
        rw [heq] at hheard
        exact hheard
      · rename_i heq
        rw [heq] at hheard
        exact hheard.trans (abides_emit ⟨trivial, id⟩)

/-! ## Editing -/

theorem abides_setSession (s : Session) (r : Relay) : Abides P whole r (r.setSession s) :=
  .of_same ⟨rfl, rfl, rfl, rfl⟩

theorem abides_sendChange (file : String) (range : Range) (text : String)
    (h : ∀ seq, P ⟨seq, Service.changeName, changeArguments file range text⟩) (r : Relay) :
    Abides P whole r (r.sendChange file range text).1 := by
  have hsent : Abides P whole r _ := abides_notify h r
  unfold sendChange
  split
  all_goals
    rename_i heq
    rwa [heq] at hsent

/-- Changes made one by one leave the checks alone. -/
theorem abides_changeEach {file : String}
    (h : ∀ seq range text, P ⟨seq, Service.changeName, changeArguments file range text⟩)
    {s : Session} (hfile : s.file = file) (changes : List TextChange) (r : Relay) :
    Abides P whole r (changeEach s changes r).1 ∧ (changeEach s changes r).1.checks = r.checks := by
  induction changes generalizing s r with
  | nil => exact ⟨.refl P whole r, rfl⟩
  | cons change rest ih =>
    rw [changeEach]
    simp only []
    generalize hr₁ : r.setSession { s with text := (change.apply s.text).1 } = r₁
    have hset : Abides P whole r r₁ := hr₁ ▸ abides_setSession _ r
    have hchecks : r₁.checks = r.checks := hr₁ ▸ rfl
    generalize hsend : r₁.sendChange s.file ((change.apply s.text).2.getD (wholeRange s.text))
      change.text = sent
    have hsent : Abides P whole r₁ sent.1 :=
      hsend ▸ abides_sendChange s.file _ change.text (fun seq => hfile ▸ h seq _ _) r₁
    have hkept : sent.1.checks = r.checks :=
      hsend ▸ (quiet_sendChange _ _ _ r₁).checks.trans hchecks
    obtain ⟨r₂, failure⟩ := sent
    cases failure with
    | some e => exact ⟨hset.trans hsent, hkept⟩
    | none =>
      obtain ⟨hrest, hchecks'⟩ := ih (s := { s with text := (change.apply s.text).1 }) hfile r₂
      exact ⟨(hset.trans hsent).trans hrest, hchecks'.trans hkept⟩

/-- So does the replacement of the whole text. -/
theorem abides_changeWhole {file : String}
    (h : ∀ seq range text, P ⟨seq, Service.changeName, changeArguments file range text⟩)
    {s : Session} (hfile : s.file = file) (changes : List TextChange) (r : Relay) :
    Abides P whole r (changeWhole s changes r).1 ∧
      (changeWhole s changes r).1.checks = r.checks := by
  unfold changeWhole
  exact ⟨(abides_setSession _ r).trans
      (abides_sendChange _ _ _ (fun seq => hfile ▸ h seq _ _) _),
    (quiet_sendChange _ _ _ _).checks⟩

theorem abides_changeAll {file : String}
    (h : ∀ seq range text, P ⟨seq, Service.changeName, changeArguments file range text⟩)
    {s : Session} (hfile : s.file = file) (changes : List TextChange) (r : Relay) :
    Abides P whole r (changeAll s changes r) ∧ (changeAll s changes r).checks = r.checks := by
  unfold changeAll
  split
  · exact abides_changeWhole h hfile changes r
  · exact abides_changeEach h hfile changes r

/-- **Changing a document abides by the rules**: what it writes is of its file,
or a check. -/
theorem abides_changeDocument
    (hchange : ∀ seq s range text, r.session? uri = some s →
      P ⟨seq, Service.changeName, changeArguments s.file range text⟩)
    (h : ∀ seq u c, r.check? u = some c →
      P ⟨seq, Service.errorCheckName, checkArguments c.file⟩)
    (version : Int) (changes : List TextChange) :
    Abides P whole r (r.changeDocument uri version changes).1 := by
  cases hopen : r.session? uri with
  | none =>
    rw [changeDocument_of_not_open hopen]
    exact .refl P whole r
  | some s =>
    have hwarned : Abides P whole r (r.checkVersion uri s version) ∧
        (r.checkVersion uri s version).checks = r.checks := by
      rcases checkVersion_cases uri s version r with heq | ⟨text, heq⟩ <;> rw [heq]
      · exact ⟨.refl P whole r, rfl⟩
      · exact ⟨abides_log _ _ r, rfl⟩
    rw [changeDocument_of_open hopen]
    generalize hr₁ : (r.checkVersion uri s version).setSession { s with version } = r₁
    have hset : Abides P whole r r₁ := hr₁ ▸ hwarned.1.trans (abides_setSession _ _)
    have hchecks : r₁.checks = r.checks := hr₁ ▸ hwarned.2
    obtain ⟨hmade, hkept⟩ := abides_changeAll (fun seq range text => hchange seq s range text hopen)
      (s := { s with version }) rfl changes r₁
    exact (hset.trans hmade).trans (abides_invalidate (fun seq u c hc =>
      h seq u c (by rwa [check?, hkept, hchecks] at hc)) uri)

/-- **So does opening one.** -/
theorem abides_openDocument {languageId : String} {version : Int} {content : String}
    (hopen : ∀ seq file, Uri.fileOf? uri = some file →
      P ⟨seq, Service.openName, openArguments r.setup.root file languageId content⟩)
    (h : ∀ seq u c, r.check? u = some c →
      P ⟨seq, Service.errorCheckName, checkArguments c.file⟩) :
    Abides P whole r (r.openDocument uri languageId version content).1 := by
  have hlogged : Abides P whole r (r.reopening uri) ∧ (r.reopening uri).checks = r.checks := by
    rcases reopening_cases uri r with heq | ⟨text, heq⟩ <;> rw [heq]
    · exact ⟨.refl P whole r, rfl⟩
    · exact ⟨abides_log _ _ r, rfl⟩
  rcases openDocument_cases uri languageId version content r with ⟨-, heq⟩ |
    ⟨file, r', hfile, rfl, hrest⟩
  · exact heq ▸ hlogged.1
  · generalize hs : Session.mk uri file languageId version content.toList = s at hrest
    have hsent : Abides P whole (r.reopening uri) ((r.reopening uri).announce s content) := by
      refine (abides_setSession s _).trans (abides_notify (fun seq => ?_) _)
      rw [hlogged.1.setup, ← hs]
      exact hopen seq file hfile
    have hkept : ((r.reopening uri).announce s content).checks = r.checks :=
      (quiet_notify _ (by decide) _ _).checks.trans hlogged.2
    have hall := hlogged.1.trans hsent
    rcases hrest with ⟨heq, -⟩ | ⟨heq, -⟩ <;> rw [heq]
    · exact hall
    · exact hall.trans (abides_invalidate (fun seq u c hc =>
        h seq u c (by rwa [check?, hkept] at hc)) uri)

/-- **And closing one.** -/
theorem abides_closeDocument
    (hclose : ∀ seq s, r.session? uri = some s →
      P ⟨seq, Service.closeName, Service.fileArgument s.file⟩) :
    Abides P whole r (r.closeDocument uri).1 := by
  cases hopen : r.session? uri with
  | none =>
    rw [closeDocument_of_not_open hopen]
    exact .refl P whole r
  | some s =>
    have herased : Abides P whole r { r with sessions := Table.erase uri r.sessions } :=
      .of_same ⟨rfl, rfl, rfl, rfl⟩
    rw [closeDocument_of_open hopen]
    exact (herased.trans (abides_forget uri _)).trans
      (abides_notify (fun seq => hclose seq s hopen) _)

/-! ## What the editor announces -/

theorem abides_autoSchedule (uri : String) {done : Relay × Option Failure}
    (h : Abides P whole r done.1) : Abides P whole r (autoSchedule uri done).1 := by
  obtain ⟨r', failure⟩ := done
  cases failure with
  | some e => exact h
  | none =>
    simp only [autoSchedule]
    split
    · exact h.trans (abides_schedule uri r')
    · exact h

/-- Closing a document fails where commands are refused. -/
theorem closeDocument_fails {cause : Closure} (hrefused : r.link.refusal? = some cause)
    (uri : String) : (r.closeDocument uri).2 ≠ none := by
  unfold closeDocument require
  cases hopen : r.session? uri with
  | none => simp
  | some s =>
    have hstill : (forget uri { r with sessions := Table.erase uri r.sessions }).link.refusal? =
        some cause := by rw [link_forget, hrefused]
    simp [notify_of_refused hstill]

/-- What the editor shows of a closed document is cleared over an open
connection alone. -/
theorem abides_didClose
    (hclose : ∀ seq s, r.session? uri = some s →
      P ⟨seq, Service.closeName, Service.fileArgument s.file⟩) :
    Abides P whole r (r.didClose uri).1 := by
  have hclosed : Abides P whole r (r.closeDocument uri).1 := abides_closeDocument hclose
  have hup : (r.closeDocument uri).2 = none → r.link.closed = none := fun hdone =>
    Option.eq_none_iff_forall_not_mem.mpr fun cause hcause =>
      closeDocument_fails (Link.refusal?_of_closed hcause) uri hdone
  unfold didClose
  split
  · rename_i heq
    rwa [heq] at hclosed
  · rename_i heq
    rw [heq] at hclosed hup
    exact hclosed.trans (abides_emit ⟨hclosed.closed.trans (hup rfl), id⟩)

theorem abides_shutdown (h : ∀ seq, P ⟨seq, Service.exitName, .null⟩) (r : Relay) :
    Abides P whole r r.shutdown.1 := by
  have hsent : Abides P whole r _ := abides_notify h r
  unfold shutdown
  split
  · exact .refl P whole r
  · split
    all_goals
      rename_i heq
      rwa [heq] at hsent

end Relay

end LanguageRelay
