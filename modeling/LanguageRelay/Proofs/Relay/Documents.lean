import LanguageRelay.Proofs.Relay.Sessions
/-!
# What leaves documents alone

Only opening, changing and closing touch the sessions of a relay, and only
they write commands that tell the analysis server of a text. All other
operations leave documents alone: `LeavesDocuments` holds of each of them,
and of every move that is not about a document (`leaves_perform`).
-/

namespace LanguageRelay

/-- A command that opens, changes or closes a document was written. -/
def Effect.TellsText : Effect → Prop
  | .sent c => c.name ∈ [Service.openName, Service.changeName, Service.closeName]
  | _ => False

namespace Relay

/-- Sessions are as before, and no text was told. -/
structure LeavesDocuments (r r' : Relay) : Prop where
  sessions : r'.sessions = r.sessions
  setup : r'.setup = r.setup
  standing : r'.link.standing = r.link.standing
  adds : Adds (fun e => ¬ e.TellsText) r r'

variable {r r' r'' : Relay}

theorem LeavesDocuments.refl (r : Relay) : LeavesDocuments r r := ⟨rfl, rfl, rfl, .refl _ r⟩

theorem LeavesDocuments.trans (h : LeavesDocuments r r') (h' : LeavesDocuments r' r'') :
    LeavesDocuments r r'' :=
  ⟨h'.sessions.trans h.sessions, h'.setup.trans h.setup, h'.standing.trans h.standing,
    h.adds.trans h'.adds⟩

theorem LeavesDocuments.closed (h : LeavesDocuments r r') : r'.link.closed = r.link.closed :=
  Link.closed_of_standing h.standing

theorem LeavesDocuments.limit (h : LeavesDocuments r r') : r'.link.limit = r.link.limit :=
  Link.limit_of_standing h.standing

theorem LeavesDocuments.session? (h : LeavesDocuments r r') (uri : String) :
    r'.session? uri = r.session? uri := by
  rw [Relay.session?, h.sessions, Relay.session?]

@[simp] theorem session?_setSession (s : Session) (r : Relay) (u : String) :
    (r.setSession s).session? u = if s.uri = u then some s else r.session? u :=
  Table.get?_put _ _ _ _

/-! ## Single operations -/

theorem leaves_emit {e : Effect} (h : ¬ e.TellsText) (r : Relay) : LeavesDocuments r (r.emit e) :=
  ⟨rfl, rfl, rfl, adds_emit h r⟩

theorem leaves_log (level : LogLevel) (text : String) (r : Relay) :
    LeavesDocuments r (r.log level text) :=
  leaves_emit id r

theorem leaves_reopening (uri : String) (r : Relay) : LeavesDocuments r (r.reopening uri) := by
  rcases reopening_cases uri r with heq | ⟨text, heq⟩ <;> rw [heq]
  · exact .refl r
  · exact leaves_log _ _ r

theorem leaves_checkVersion (uri : String) (s : Session) (version : Int) (r : Relay) :
    LeavesDocuments r (r.checkVersion uri s version) := by
  rcases checkVersion_cases uri s version r with heq | ⟨text, heq⟩ <;> rw [heq]
  · exact .refl r
  · exact leaves_log _ _ r

theorem leaves_notify (name : String)
    (h : name ∉ [Service.openName, Service.changeName, Service.closeName]) (arguments : Json)
    (r : Relay) : LeavesDocuments r (r.notify name arguments).1 := by
  refine ⟨?_, ?_, ?_, adds_notify (fun _ => h) r⟩ <;> cases hc : r.link.refusal? <;>
    simp [notify, takeSeq, emit, hc, Link.standing]

theorem leaves_ask {name : String}
    (h : name ∉ [Service.openName, Service.changeName, Service.closeName]) (arguments : Json)
    (r : Relay) : LeavesDocuments r (r.ask name arguments).1 := by
  have hname : ¬ Effect.TellsText (.sent ⟨(r.nextSeq : Nat), name, arguments⟩) := h
  unfold Relay.ask
  simp only []
  split
  · exact ⟨rfl, rfl, rfl, .of_outbox_eq rfl⟩
  · split
    · exact ⟨rfl, rfl, rfl, .of_outbox_eq rfl⟩
    · exact ⟨rfl, rfl, rfl, ⟨[_], rfl, by simpa using hname⟩⟩

theorem leaves_setCheck (uri : String) (c : CheckState) (r : Relay) :
    LeavesDocuments r (r.setCheck uri c) :=
  ⟨rfl, rfl, rfl, .of_outbox_eq rfl⟩

theorem leaves_releaseWaiters (outcome : Except Failure Unit) (ws : List Waiter) (r : Relay) :
    LeavesDocuments r (releaseWaiters outcome ws r) := by
  rw [releaseWaiters_eq]
  refine ⟨rfl, rfl, rfl, ⟨_, rfl, fun e he => ?_⟩⟩
  obtain ⟨w, -, rfl⟩ := List.mem_map.mp he
  exact id

theorem leaves_logSkipped (uri : String) (faults : List ProtocolFault) (r : Relay) :
    LeavesDocuments r (logSkipped uri faults r) := by
  rw [logSkipped_eq]
  refine ⟨rfl, rfl, rfl, ⟨_, rfl, fun e he => ?_⟩⟩
  obtain ⟨fault, -, rfl⟩ := List.mem_map.mp he
  exact id

theorem leaves_startGeneration (uri : String) (c : CheckState) (r : Relay) :
    LeavesDocuments r (r.startGeneration uri c).1 := by
  have h := leaves_notify Service.errorCheckName (by decide) (checkArguments c.file) r
  unfold startGeneration
  split
  · rename_i r' e heq
    rwa [heq] at h
  · rename_i r' seq heq
    rw [heq] at h
    exact h.trans (leaves_setCheck _ _ _)

theorem leaves_requestCheck (uri : String) (waiter : Nat) (r : Relay) :
    LeavesDocuments r (r.requestCheck uri waiter).1 := by
  have henroll : ∀ file, LeavesDocuments r (r.enroll uri file).1 := by
    intro file
    unfold enroll
    split
    · exact .refl r
    · exact ⟨rfl, rfl, rfl, .of_outbox_eq rfl⟩
  have hwait : ∀ r' : Relay, LeavesDocuments r' (r'.addWaiter uri waiter) :=
    fun _ => ⟨rfl, rfl, rfl, .of_outbox_eq rfl⟩
  unfold requestCheck
  split
  · exact .refl r
  · rename_i s _
    have hstart := leaves_startGeneration uri (r.enroll uri s.file).2 (r.enroll uri s.file).1
    simp only []
    split
    · split
      · exact henroll _
      · split
        · rename_i heq
          rw [heq] at hstart
          exact (henroll _).trans hstart
        · rename_i heq
          rw [heq] at hstart
          exact ((henroll _).trans hstart).trans (hwait _)
    · exact (henroll _).trans (hwait _)

theorem leaves_disarm (uri : String) (r : Relay) : LeavesDocuments r (r.disarm uri) := by
  unfold disarm
  split
  · exact .refl r
  · exact ⟨rfl, rfl, rfl, ⟨[_], rfl, by simp [Effect.TellsText]⟩⟩

theorem leaves_schedule (uri : String) (r : Relay) : LeavesDocuments r (r.schedule uri) :=
  (leaves_disarm uri r).trans ⟨rfl, rfl, rfl, ⟨[_], rfl, by simp [Effect.TellsText]⟩⟩

theorem leaves_fire (uri : String) (timer : Nat) (r : Relay) :
    LeavesDocuments r (r.fire uri timer).1 := by
  unfold fire
  split
  · exact ⟨rfl, rfl, rfl, .of_outbox_eq rfl⟩
  · exact .refl r

theorem leaves_invalidate (uri : String) (r : Relay) :
    LeavesDocuments r (r.invalidate uri).1 := by
  have hstale : LeavesDocuments r r.stale := ⟨rfl, rfl, rfl, .of_outbox_eq rfl⟩
  unfold invalidate
  simp only []
  split
  · exact hstale
  · split
    · exact hstale
    · split
      · exact hstale.trans (leaves_setCheck _ _ _)
      · exact hstale.trans (leaves_startGeneration _ _ _)

theorem leaves_forget (uri : String) (r : Relay) : LeavesDocuments r (r.forget uri) := by
  have hunlink : ∀ file (r : Relay), LeavesDocuments r (r.unlinkFile file uri) := by
    intro file r
    unfold unlinkFile
    split
    · exact ⟨rfl, rfl, rfl, .of_outbox_eq rfl⟩
    · exact .refl r
  have habandon : ∀ file entries (r : Relay), LeavesDocuments r (r.abandon file entries) := by
    intro file entries r
    unfold abandon
    split
    · exact .refl r
    · exact ⟨rfl, rfl, rfl, .of_outbox_eq rfl⟩
  unfold forget
  simp only []
  split
  · exact leaves_disarm uri r
  · have herase : LeavesDocuments (r.disarm uri)
        { r.disarm uri with checks := Table.erase uri (r.disarm uri).checks } :=
      ⟨rfl, rfl, rfl, .of_outbox_eq rfl⟩
    exact ((leaves_disarm uri r).trans herase).trans
      (((hunlink _ _).trans (habandon _ _ _)).trans (leaves_releaseWaiters _ _ _))

/-- A document that is dismissed has no session, and the others keep theirs. -/
theorem session?_dismiss (uri : String) (r : Relay) (u : String) :
    (r.dismiss uri).session? u = if uri = u then none else r.session? u := by
  rw [dismiss, (leaves_forget uri _).session?]
  exact Table.get?_erase _ _ _

theorem leaves_settle (uri : String) (c : CheckState) (r : Relay) :
    LeavesDocuments r (r.settle uri c).1 := by
  unfold settle
  simp only []
  split
  · exact (leaves_setCheck _ _ _).trans (leaves_releaseWaiters _ _ _)
  · split
    · exact (leaves_setCheck _ _ _).trans (leaves_logSkipped _ _ _)
    · refine .trans ?_ (leaves_releaseWaiters _ _ _)
      refine .trans ?_ (leaves_emit (by simp [Effect.TellsText]) _)
      refine .trans ?_ (leaves_setCheck _ _ _)
      exact (leaves_setCheck _ _ _).trans (leaves_logSkipped _ _ _)

theorem leaves_report (uri category : String) (entries : List Json) (c : CheckState) (r : Relay) :
    LeavesDocuments r (r.report uri category entries c).1 := by
  unfold report
  split
  · exact .refl r
  · simp only []
    split
    · exact leaves_setCheck _ _ _
    · split
      · exact (leaves_setCheck _ _ _).trans (leaves_settle _ _ _)
      · exact leaves_setCheck _ _ _

theorem leaves_reportFile (file category : String) (entries : List Json) (r : Relay) :
    LeavesDocuments r (r.reportFile file category entries).1 := by
  unfold reportFile
  split
  · rename_i r' heq
    obtain ⟨-, -, rfl⟩ := Option.map_eq_some_iff.mp heq
    exact ⟨rfl, rfl, rfl, .of_outbox_eq rfl⟩
  · split
    · exact .refl r
    · split
      · exact .refl r
      · exact leaves_report _ _ _ _ r

theorem leaves_complete (seq : Int) (r : Relay) : LeavesDocuments r (r.complete seq).1 := by
  have hretire : LeavesDocuments r (r.retireAbandoned seq) := ⟨rfl, rfl, rfl, .of_outbox_eq rfl⟩
  have hinc : ∀ uri c (r : Relay), LeavesDocuments r (r.incomplete uri c).1 := by
    intro uri c r
    unfold incomplete
    simp only []
    split
    · exact (leaves_log _ _ _).trans (leaves_settle _ _ _)
    · exact (leaves_log _ _ _).trans ((leaves_setCheck _ _ _).trans (leaves_startGeneration _ _ _))
  unfold complete
  simp only []
  split
  · exact hretire
  · split
    · exact hretire.trans (leaves_setCheck _ _ _)
    · exact hretire.trans ((leaves_setCheck _ _ _).trans (hinc _ _ _))

theorem leaves_handleEvent (event : Service.Event) (r : Relay) :
    LeavesDocuments r (r.handleEvent event).1 := by
  unfold handleEvent
  split
  · split
    · exact leaves_complete _ r
    · exact .refl r
  · split
    · exact leaves_reportFile _ _ _ r
    · exact .refl r

theorem leaves_resolve (response : Service.Response) (r : Relay) :
    LeavesDocuments r (r.resolve response) := by
  unfold resolve
  split
  · exact leaves_log _ _ r
  · simp only []
    split
    · exact ⟨rfl, rfl, rfl, .of_outbox_eq rfl⟩
    · exact ⟨rfl, rfl, rfl, ⟨[_], rfl, by simp [Effect.TellsText]⟩⟩

theorem leaves_receive (message : Json) (r : Relay) :
    LeavesDocuments r (r.receive message).1 := by
  unfold receive
  split
  · exact leaves_log _ _ r
  · exact leaves_resolve _ r
  · rename_i event _
    have h := leaves_handleEvent event r
    split
    · rename_i heq
      rwa [heq] at h
    · rename_i heq
      rw [heq] at h
      exact h.trans (leaves_emit (by simp [Effect.TellsText]) _)

/-! ## Moves -/

/-- The document a move opens, changes or closes. -/
def Move.edited? : Move → Option String
  | openDocument uri _ _ _ => some uri
  | changeDocument uri _ _ => some uri
  | closeDocument uri => some uri
  | _ => none

/-- The move closes the connection. -/
def Move.IsDisconnect : Move → Prop
  | disconnect _ => True
  | _ => False

/-- **A move that is about no document leaves documents alone.** -/
theorem leaves_perform {m : Move} (hm : m.edited? = none) (hd : ¬ m.IsDisconnect) (r : Relay) :
    LeavesDocuments r (m.perform r).1 := by
  have hplain : ∀ {name : String}, name ∉ documentCommands →
      name ∉ [Service.openName, Service.changeName, Service.closeName] := by
    intro name hname hmem
    refine hname ?_
    simp only [documentCommands, List.mem_cons, List.not_mem_nil, or_false] at hmem ⊢
    rcases hmem with h | h | h <;> simp [h]
  cases m with
  | openDocument => simp [Move.edited?] at hm
  | changeDocument => simp [Move.edited?] at hm
  | closeDocument => simp [Move.edited?] at hm
  | requestCheck uri waiter => exact leaves_requestCheck uri waiter r
  | withdrawWaiter waiter => exact ⟨rfl, rfl, rfl, .of_outbox_eq rfl⟩
  | schedule uri => exact leaves_schedule uri r
  | fire uri timer => exact leaves_fire uri timer r
  | notify name arguments plain => exact leaves_notify name (hplain plain) arguments r
  | ask name arguments plain => exact leaves_ask (hplain plain) arguments r
  | withdraw seq => exact ⟨rfl, rfl, rfl, .of_outbox_eq rfl⟩
  | unlist seq => exact ⟨rfl, rfl, rfl, .of_outbox_eq rfl⟩
  | receive message => exact leaves_receive message r
  | disconnect cause => exact absurd trivial hd

end Relay

end LanguageRelay
