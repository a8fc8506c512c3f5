import LanguageRelay.Proofs.Relay.Conduct
/-!
# Which files are open

A file is open while a document of it is. Only opening and closing a document
change which files are open: what every operation does about it is said per
document (`fileAt`). Over an open connection opening and closing also write
their command, before all others and alone (`openDocument_file`,
`closeDocument_file`). No operation on one document touches another
(`ChangesOnly`).
-/

namespace LanguageRelay

/-- The command that was written, if one was. -/
def Effect.command? : Effect → Option Service.Command
  | .sent c => some c
  | _ => none

/-- The commands written in a history. -/
def commands (history : List Effect) : List Service.Command := history.filterMap Effect.command?

theorem commands_append (history fx : List Effect) :
    commands (history ++ fx) = commands history ++ commands fx :=
  List.filterMap_append ..

theorem mem_commands {history : List Effect} {c : Service.Command} :
    c ∈ commands history ↔ .sent c ∈ history := by
  constructor
  · intro h
    obtain ⟨effect, heffect, hc⟩ := List.mem_filterMap.mp h
    cases effect <;> cases hc
    exact heffect
  · exact fun h => List.mem_filterMap.mpr ⟨_, h, rfl⟩

namespace Relay

/-- The file of a document, if that is open. -/
def fileAt (r : Relay) (uri : String) : Option String := (r.session? uri).map Session.file

/-- A document of the file is open. -/
def Opens (r : Relay) (file : String) : Prop := ∃ uri, r.fileAt uri = some file

variable {P : Service.Command → Prop} {whole : Prop} {r r' : Relay} {uri : String} {s : Session}

/-- What is written by the rules satisfies what they ask of commands, and is
written over an open connection. -/
theorem Abides.commands (h : Abides P whole r r') :
    ∃ fx, r'.outbox = r.outbox ++ fx ∧ ∀ c ∈ commands fx, r.link.closed = none ∧ P c := by
  obtain ⟨fx, hfx, hallowed, -⟩ := h.added
  exact ⟨fx, hfx, fun c hc => hallowed _ (mem_commands.mp hc)⟩

/-- Where no command satisfies what the rules ask, none is written. -/
theorem Abides.silent (h : Abides (fun _ => False) whole r r') :
    ∃ fx, r'.outbox = r.outbox ++ fx ∧ LanguageRelay.commands fx = [] := by
  obtain ⟨fx, hfx, hnone⟩ := h.commands
  exact ⟨fx, hfx, List.eq_nil_iff_forall_not_mem.mpr fun c hc => (hnone c hc).2⟩

theorem fileAt_of_session (h : r.session? uri = some s) : r.fileAt uri = some s.file := by
  rw [fileAt, h, Option.map_some]

theorem opens_of_session (h : r.session? uri = some s) : r.Opens s.file :=
  ⟨uri, fileAt_of_session h⟩

/-- Where the same files are at the same documents, the same files are open. -/
theorem opens_congr (h : ∀ uri, r'.fileAt uri = r.fileAt uri) (file : String) :
    r'.Opens file ↔ r.Opens file := by
  simp only [Opens, h]

theorem LeavesDocuments.fileAt (h : LeavesDocuments r r') (uri : String) :
    r'.fileAt uri = r.fileAt uri := by
  rw [Relay.fileAt, h.session?, Relay.fileAt]

theorem session?_of_sessions (h : r'.sessions = r.sessions) (uri : String) :
    r'.session? uri = r.session? uri := by
  rw [session?, h, session?]

theorem fileAt_of_sessions (h : r'.sessions = r.sessions) (uri : String) :
    r'.fileAt uri = r.fileAt uri := by
  rw [fileAt, session?_of_sessions h, fileAt]

theorem fileAt_setSession (s : Session) (r : Relay) (uri : String) :
    (r.setSession s).fileAt uri = if s.uri = uri then some s.file else r.fileAt uri := by
  rw [fileAt, session?_setSession]
  split
  · rfl
  · rfl

/-- Whatever is written, sessions stay. -/
theorem sessions_notify (name : String) (arguments : Json) (r : Relay) :
    (r.notify name arguments).1.sessions = r.sessions := by
  cases htaken : r.link.refusal? with
  | some cause => rw [notify_of_refused htaken]; rfl
  | none => rw [notify_of_taken htaken]; rfl

theorem sessions_announce (s : Session) (content : String) (r : Relay) :
    (r.announce s content).sessions = (r.setSession s).sessions :=
  sessions_notify _ _ _

/-! ## Changing a document -/

theorem sessions_sendChange (file : String) (range : Range) (text : String) (r : Relay) :
    (r.sendChange file range text).1.sessions = r.sessions := by
  have hsent := sessions_notify Service.changeName (changeArguments file range text) r
  unfold sendChange
  split
  all_goals
    rename_i heq
    rwa [heq] at hsent

/-- What is done is done to one document: that stays at its file, and all others
stay as they are. -/
structure ChangesOnly (uri : String) (r r' : Relay) : Prop where
  file : r'.fileAt uri = r.fileAt uri
  others : ∀ u, uri ≠ u → r'.session? u = r.session? u

theorem ChangesOnly.trans {r'' : Relay} (h : ChangesOnly uri r r') (h' : ChangesOnly uri r' r'') :
    ChangesOnly uri r r'' :=
  ⟨h'.file.trans h.file, fun u hne => (h'.others u hne).trans (h.others u hne)⟩

theorem changesOnly_of_session? (h : ∀ u, r'.session? u = r.session? u) (uri : String) :
    ChangesOnly uri r r' :=
  ⟨by rw [fileAt, h, fileAt], fun u _ => h u⟩

theorem changesOnly_of_sessions (h : r'.sessions = r.sessions) (uri : String) :
    ChangesOnly uri r r' :=
  changesOnly_of_session? (session?_of_sessions h) uri

/-- A session is set anew for the same file. -/
theorem changesOnly_setSession (h : r.fileAt s.uri = some s.file) :
    ChangesOnly s.uri r (r.setSession s) :=
  ⟨by rw [fileAt_setSession, if_pos rfl, h],
    fun u hne => by rw [session?_setSession, if_neg hne]⟩

/-- The same files are open. -/
theorem ChangesOnly.fileAt (h : ChangesOnly uri r r') (u : String) : r'.fileAt u = r.fileAt u := by
  by_cases hu : uri = u
  · rw [← hu, h.file]
  · rw [Relay.fileAt, h.others u hu, Relay.fileAt]

theorem changesOnly_changeEach (changes : List TextChange) (h : r.fileAt s.uri = some s.file) :
    ChangesOnly s.uri r (changeEach s changes r).1 := by
  induction changes generalizing s r with
  | nil => exact changesOnly_of_sessions rfl s.uri
  | cons change rest ih =>
    rw [changeEach]
    simp only []
    have hset := changesOnly_setSession (r := r) (s := { s with text := (change.apply s.text).1 }) h
    generalize r.setSession { s with text := (change.apply s.text).1 } = r₁ at hset ⊢
    have hsent := changesOnly_of_sessions (sessions_sendChange s.file
      ((change.apply s.text).2.getD (wholeRange s.text)) change.text r₁) s.uri
    generalize r₁.sendChange s.file ((change.apply s.text).2.getD (wholeRange s.text))
      change.text = sent at hsent ⊢
    obtain ⟨r₂, failure⟩ := sent
    have hkept : ChangesOnly s.uri r r₂ := hset.trans hsent
    cases failure with
    | some e => exact hkept
    | none =>
      exact hkept.trans (ih (r := r₂) (s := { s with text := (change.apply s.text).1 })
        (hkept.file.trans h))

theorem changesOnly_changeWhole (changes : List TextChange) (h : r.fileAt s.uri = some s.file) :
    ChangesOnly s.uri r (changeWhole s changes r).1 := by
  have hset := changesOnly_setSession (s := { s with text := textAfter s.text changes }) h
  exact hset.trans (changesOnly_of_sessions (sessions_sendChange _ _ _ _) s.uri)

theorem changesOnly_changeAll (changes : List TextChange) (h : r.fileAt s.uri = some s.file) :
    ChangesOnly s.uri r (changeAll s changes r) := by
  unfold changeAll
  split
  · exact changesOnly_changeWhole changes h
  · exact changesOnly_changeEach changes h

/-- **Changing a document changes no other**, and leaves the same files open. -/
theorem changesOnly_changeDocument (hkey : ∀ s, r.session? uri = some s → s.uri = uri)
    (version : Int) (changes : List TextChange) :
    ChangesOnly uri r (r.changeDocument uri version changes).1 := by
  cases hopen : r.session? uri with
  | none =>
    rw [changeDocument_of_not_open hopen]
    exact changesOnly_of_sessions rfl uri
  | some s =>
    obtain rfl := hkey s hopen
    have hwarned :=
      changesOnly_of_session? (leaves_checkVersion s.uri s version r).session? s.uri
    have hfile := hwarned.file.trans (fileAt_of_session hopen)
    have hset := changesOnly_setSession (s := { s with version }) hfile
    have hmade := changesOnly_changeAll (s := { s with version }) changes (hset.file.trans hfile)
    rw [changeDocument_of_open hopen]
    exact ((hwarned.trans hset).trans hmade).trans
      (changesOnly_of_session? (leaves_invalidate s.uri _).session? s.uri)

/-! ## Opening and closing one -/

/-- **Opening a document opens its file**, if its URI names one, and says so before
anything else is written, unless commands are refused. -/
theorem openDocument_file (uri languageId : String) (version : Int) (content : String) (r : Relay) :
    (∀ u, (r.openDocument uri languageId version content).1.fileAt u =
      if uri = u ∧ (Uri.fileOf? uri).isSome then Uri.fileOf? uri else r.fileAt u) ∧
    ∀ file, Uri.fileOf? uri = some file → r.link.refusal? = none →
      ∃ fx seq rest, (r.openDocument uri languageId version content).1.outbox = r.outbox ++ fx ∧
        commands fx = ⟨seq, Service.openName, openArguments r.setup.root file languageId content⟩ ::
          rest ∧
        ∀ c ∈ rest, c.name ∉ [Service.openName, Service.changeName, Service.closeName] := by
  have hlogged := leaves_reopening uri r
  rcases openDocument_cases uri languageId version content r with ⟨hfile, heq⟩ |
    ⟨file, r', hfile, rfl, hrest⟩
  · rw [heq, hfile]
    exact ⟨fun u => by simp [hlogged.fileAt u], by simp⟩
  · generalize hs : Session.mk uri file languageId version content.toList = s at hrest
    have hfiles : ∀ u, ((r.reopening uri).announce s content).fileAt u =
        if uri = u then some file else r.fileAt u := by
      intro u
      rw [fileAt_of_sessions (sessions_announce _ _ _), fileAt_setSession, hlogged.fileAt u, ← hs]
    have htold : r.link.refusal? = none → ∃ fx seq,
        ((r.reopening uri).announce s content).outbox = r.outbox ++ fx ∧
          commands fx = [⟨seq, Service.openName,
            openArguments r.setup.root file languageId content⟩] := by
      intro htaken
      have hstill : ((r.reopening uri).setSession s).link.refusal? = none := by
        rcases reopening_cases uri r with hsame | ⟨text, hsame⟩ <;> rw [hsame] <;> exact htaken
      rw [announce, notify_of_taken hstill, hlogged.setup, ← hs]
      rcases reopening_cases uri r with hsame | ⟨text, hsame⟩ <;> rw [hsame]
      · exact ⟨[_], _, rfl, rfl⟩
      · exact ⟨[_, _], _, List.append_assoc _ [_] [_], rfl⟩
    simp only [hfile, Option.isSome_some, and_true]
    rcases hrest with ⟨heq, -⟩ | ⟨heq, -⟩ <;> rw [heq]
    · refine ⟨hfiles, fun f hf htaken => ?_⟩
      cases hf
      obtain ⟨fx, seq, hfx, hcommands⟩ := htold htaken
      exact ⟨fx, seq, [], hfx, hcommands, by simp⟩
    · -- opened again, the document has its checks started anew, after it is announced
      have hleaves := leaves_invalidate uri ((r.reopening uri).announce s content)
      refine ⟨fun u => (hleaves.fileAt u).trans (hfiles u), fun f hf htaken => ?_⟩
      cases hf
      obtain ⟨fx, seq, hfx, hcommands⟩ := htold htaken
      obtain ⟨fx', hfx', hplain⟩ := hleaves.adds
      refine ⟨fx ++ fx', seq, commands fx', by rw [hfx', hfx, List.append_assoc], ?_,
        fun c hc => hplain _ (mem_commands.mp hc)⟩
      rw [commands_append, hcommands]
      rfl

/-- **Closing a document closes its file**, and says so and nothing else, unless
commands are refused. -/
theorem closeDocument_file (uri : String) (r : Relay) :
    (∀ u, (r.closeDocument uri).1.fileAt u = if uri = u then none else r.fileAt u) ∧
    ∀ s, r.session? uri = some s → r.link.refusal? = none →
      ∃ fx seq, (r.closeDocument uri).1.outbox = r.outbox ++ fx ∧
        commands fx = [⟨seq, Service.closeName, Service.fileArgument s.file⟩] := by
  cases hopen : r.session? uri with
  | none =>
    rw [closeDocument_of_not_open hopen]
    refine ⟨fun u => ?_, by simp⟩
    by_cases hu : uri = u
    · rw [if_pos hu, ← hu, fileAt, hopen, Option.map_none]
    · rw [if_neg hu]
  | some s =>
    -- the session is gone before the record of its checks is, and the command comes last
    have hleaves : LeavesDocuments { r with sessions := Table.erase uri r.sessions }
        (r.dismiss uri) := leaves_forget uri _
    have hforgot : Abides (fun _ => False) True { r with sessions := Table.erase uri r.sessions }
        (r.dismiss uri) := abides_forget uri _
    obtain ⟨fx₀, houtbox, hsilent⟩ := hforgot.silent
    rw [closeDocument_of_open hopen]
    refine ⟨fun u => ?_, fun s' hs' htaken => ?_⟩
    · rw [fileAt_of_sessions (sessions_notify _ _ _), fileAt, session?_dismiss]
      split <;> rfl
    · cases hs'
      have hstill : (r.dismiss uri).link.refusal? = none := by
        rw [dismiss, link_forget]
        exact htaken
      rw [notify_of_taken hstill]
      refine ⟨fx₀ ++ [.sent ⟨((r.dismiss uri).nextSeq : Nat), Service.closeName,
        Service.fileArgument s.file⟩], ((r.dismiss uri).nextSeq : Nat), ?_, ?_⟩
      · rw [← List.append_assoc]
        exact congrArg (fun fx => fx ++ _) houtbox
      · rw [commands_append, hsilent]
        rfl

/-! ## What the editor announces -/

theorem session?_autoSchedule (uri : String) (done : Relay × Option Failure) (u : String) :
    (autoSchedule uri done).1.session? u = done.1.session? u := by
  obtain ⟨r, failure⟩ := done
  cases failure with
  | some f => rfl
  | none =>
    simp only [autoSchedule]
    split
    · exact (leaves_schedule uri r).session? u
    · rfl

theorem fileAt_autoSchedule (uri : String) (done : Relay × Option Failure) (u : String) :
    (autoSchedule uri done).1.fileAt u = done.1.fileAt u := by
  rw [fileAt, session?_autoSchedule, fileAt]

theorem fileAt_didClose (uri : String) (r : Relay) (u : String) :
    (r.didClose uri).1.fileAt u = if uri = u then none else r.fileAt u := by
  have hclosed := (closeDocument_file uri r).1 u
  unfold didClose
  split
  all_goals
    rename_i heq
    rw [heq] at hclosed
    exact hclosed

theorem fileAt_shutdown (r : Relay) (u : String) : r.shutdown.1.fileAt u = r.fileAt u := by
  have hsent := fileAt_of_sessions (sessions_notify Service.exitName .null r) u
  unfold shutdown
  split
  · rfl
  · split
    all_goals
      rename_i heq
      rwa [heq] at hsent

/-- A check that is scheduled writes nothing. -/
theorem autoSchedule_silent (uri : String) (done : Relay × Option Failure) :
    ∃ fx, (autoSchedule uri done).1.outbox = done.1.outbox ++ fx ∧ commands fx = [] := by
  obtain ⟨r, failure⟩ := done
  have hnone : ∃ fx, r.outbox = r.outbox ++ fx ∧ commands fx = [] := ⟨[], by simp, rfl⟩
  cases failure with
  | some f => exact hnone
  | none =>
    simp only [autoSchedule]
    split
    · have hscheduled : Abides (fun _ => False) True r (r.schedule uri) := abides_schedule uri r
      exact hscheduled.silent
    · exact hnone

/-- What the editor shows of a closed document is cleared without a command. -/
theorem didClose_silent (uri : String) (r : Relay) :
    ∃ fx, (r.didClose uri).1.outbox = (r.closeDocument uri).1.outbox ++ fx ∧ commands fx = [] := by
  unfold didClose
  split
  · rename_i heq
    exact ⟨[], by rw [heq, List.append_nil], rfl⟩
  · rename_i heq
    exact ⟨[_], by rw [heq]; rfl, rfl⟩

/-! ## The connection -/

theorem fileAt_disconnect (cause : Closure) (r : Relay) (u : String) :
    (r.disconnect cause).fileAt u = r.fileAt u := by
  cases hup : r.link.closed with
  | some first => simp [disconnect, hup]
  | none => rw [disconnect_of_open hup]; rfl

/-- A closing connection has nothing written. -/
theorem disconnect_silent (cause : Closure) (r : Relay) :
    ∃ fx, (r.disconnect cause).outbox = r.outbox ++ fx ∧ commands fx = [] := by
  cases hup : r.link.closed with
  | some first => exact ⟨[], by simp [disconnect, hup], rfl⟩
  | none =>
    rw [disconnect_of_open hup]
    refine ⟨rejectionNotice cause r.link.pending ++ (rejections cause r.link.pending ++
      (r.scheduled.map (fun e => .disarmed e.1 e.2) ++
        (releases (.error (.closed cause)) (r.checks.flatMap fun e => e.2.waiters) ++
          [.closed cause]))), by simp only [List.append_assoc], ?_⟩
    refine List.eq_nil_iff_forall_not_mem.mpr fun c hc => ?_
    have hnotice : Effect.sent c ∉ rejectionNotice cause r.link.pending := by
      unfold rejectionNotice
      split <;> simp
    simp [mem_commands, hnotice, rejections, releases] at hc

/-- Neither has a response that comes in. -/
theorem resolve_silent (response : Service.Response) (r : Relay) :
    ∃ fx, (r.resolve response).outbox = r.outbox ++ fx ∧ commands fx = [] := by
  unfold resolve
  split
  · exact ⟨[_], rfl, rfl⟩
  · simp only []
    split
    · exact ⟨[], by simp [unlist], rfl⟩
    · exact ⟨[_], rfl, rfl⟩

/-! ## Other documents -/

variable {u : String}

/-- Opening a document leaves the others as they are. -/
theorem session?_openDocument_of_ne (languageId : String) (version : Int) (content : String)
    (hne : uri ≠ u) (r : Relay) :
    (r.openDocument uri languageId version content).1.session? u = r.session? u := by
  have hlogged := (leaves_reopening uri r).session? u
  rcases openDocument_cases uri languageId version content r with ⟨-, heq⟩ |
    ⟨file, r', -, rfl, hrest⟩
  · rw [heq, hlogged]
  · generalize hs : Session.mk uri file languageId version content.toList = s at hrest
    have hannounced : ((r.reopening uri).announce s content).session? u = r.session? u := by
      rw [session?_of_sessions (sessions_announce _ _ _), session?_setSession, ← hs, if_neg hne,
        hlogged]
    rcases hrest with ⟨heq, -⟩ | ⟨heq, -⟩ <;> rw [heq]
    · exact hannounced
    · rw [(leaves_invalidate uri _).session?, hannounced]

/-- Closing a document leaves the others as they are. -/
theorem session?_didClose_of_ne (hne : uri ≠ u) (r : Relay) :
    (r.didClose uri).1.session? u = r.session? u := by
  have hclosed : (r.closeDocument uri).1.session? u = r.session? u := by
    cases hopen : r.session? uri with
    | none => rw [closeDocument_of_not_open hopen]
    | some s =>
      rw [closeDocument_of_open hopen, session?_of_sessions (sessions_notify _ _ _),
        session?_dismiss, if_neg hne]
  unfold didClose
  split
  all_goals
    rename_i heq
    rw [heq] at hclosed
    exact hclosed

end Relay

end LanguageRelay
