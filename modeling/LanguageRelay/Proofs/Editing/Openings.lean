import LanguageRelay.Proofs.Editing.Doings
import LanguageRelay.Proofs.Editing.Items
import LanguageRelay.Proofs.Relay.Wire
/-!
# What deeds do about files

Of all deeds only opening and closing a document change which files are open
(`fileAt_does`), and what a deed writes at once is about open files but for the
command that opens or closes one (`fileStep_does`). Over a closed connection a
deed writes nothing (`mute_does`).

This takes an editor that leaves files to the relay (`Terms.editor`): commands
that are written as they are name none.
-/

namespace LanguageRelay

namespace Engine

/-- What an editor does: no command names a file but for a document, and details
are asked for of items that were handed out. -/
def Terms.editor : Terms where
  tells _ arguments := arguments.namedFiles = []
  puts e q :=
    match q with
    | .command _ arguments _ => arguments.namedFiles = []
    | .details _ item => ∀ h, item.handle = .ok h → e.HandedOut h
    | _ => True
  hears _ _ := True

/-- The document that a deed opens. -/
def Deed.opens? : Deed → Option String
  | opened uri _ _ _ => some uri
  | _ => none

/-- The documents that deeds open. -/
def openedUris (deeds : List Deed) : List String := deeds.filterMap Deed.opens?

theorem mem_openedUris {deeds : List Deed} {uri : String} :
    uri ∈ openedUris deeds ↔ ∃ d ∈ deeds, d.opens? = some uri :=
  List.mem_filterMap

/-- The file of a document after a deed. -/
def Deed.fileAfter (r : Relay) (u : String) : Deed → Option String
  | opened uri _ _ _ =>
    if uri = u ∧ (Uri.fileOf? uri).isSome then Uri.fileOf? uri else r.fileAt u
  | closed uri => if uri = u then none else r.fileAt u
  | _ => r.fileAt u

variable {t : Terms} {d : Deed} {r r' : Relay}

/-- **Deeds open and close files as they say.** -/
theorem fileAt_does (hdoes : Does t r d r') (hsound : r.Sound) (u : String) :
    r'.fileAt u = d.fileAfter r u := by
  cases hdoes with
  | opened uri languageId version text =>
    exact (Relay.fileAt_autoSchedule uri _ u).trans
      ((Relay.openDocument_file uri languageId version text r).1 u)
  | changed uri version changes =>
    have hchanges := Relay.changesOnly_changeDocument (fun s hopen => (hsound.filed uri s hopen).1)
      version changes
    exact (Relay.fileAt_autoSchedule uri _ u).trans (hchanges.fileAt u)
  | closed uri => exact Relay.fileAt_didClose uri r u
  | ended => exact Relay.fileAt_shutdown r u
  | scheduled uri => exact (Relay.leaves_schedule uri r).fileAt u
  | told name arguments => exact Relay.fileAt_of_sessions (Relay.sessions_notify name arguments r) u
  | heard message => exact (Relay.leaves_receive message r).fileAt u
  | disconnected cause => exact Relay.fileAt_disconnect cause r u

/-- A document that has a file after a deed had it before, or was opened. -/
theorem fileAt_before (hdoes : Does t r d r') (hsound : r.Sound) {u file : String}
    (h : r'.fileAt u = some file) : r.fileAt u = some file ∨ d.opens? = some u := by
  rw [fileAt_does hdoes hsound] at h
  cases d with
  | opened uri languageId version text =>
    simp only [Deed.fileAfter] at h
    split at h
    · rename_i hopened
      exact .inr (congrArg some hopened.1)
    · exact .inl h
  | closed uri =>
    simp only [Deed.fileAfter] at h
    split at h
    · cases h
    · exact .inl h
  | _ => exact .inl h

/-- What a relay did since its outbox was collected is all there is. -/
theorem commands_of_added {fx : List Effect} {cs : List Service.Command}
    (hcollected : r.outbox = []) (h : r'.outbox = r.outbox ++ fx) (hcs : commands fx = cs) :
    commands r'.outbox = cs := by
  rw [h, hcollected, List.nil_append, hcs]

/-- **Over a closed connection a deed writes nothing**, and leaves it closed. -/
theorem mute_does (hdoes : Does t r d r') (hsound : r.Sound) (hcollected : r.outbox = [])
    (hclosed : r.link.closed ≠ none) : commands r'.outbox = [] ∧ r'.link.closed ≠ none := by
  rcases does_cases hdoes hsound with habides | ⟨-, response, -, -, rfl⟩ | ⟨cause, -, hup, -⟩
  · obtain ⟨fx, hfx, hwrites⟩ := habides.commands
    refine ⟨commands_of_added hcollected hfx ?_, by rwa [habides.closed]⟩
    exact List.eq_nil_iff_forall_not_mem.mpr fun c hc => hclosed (hwrites c hc).1
  · obtain ⟨fx, hfx, hnone⟩ := Relay.resolve_silent response r
    exact ⟨commands_of_added hcollected hfx hnone, by rwa [(Relay.leaves_resolve response r).closed]⟩
  · exact absurd hup hclosed

/-- An error check that is written is about an open file. -/
theorem aboutOpen_of_checksOpen {c : Service.Command} (h : ChecksOpen r c) : AboutOpen r c := by
  obtain ⟨seq, uri, s, hopen, rfl⟩ := h
  exact aboutOpen_of_session hopen (namedFiles_checkArguments s.file) (by decide) seq

/-- What a deed that opens and closes nothing writes is about open files. -/
theorem aboutOpen_of_writes {c : Service.Command} (hdoes : Does .editor r d r')
    (hwrites : d.Writes r c) (hopens : ∀ uri languageId version text,
      d ≠ .opened uri languageId version text) (hcloses : ∀ uri, d ≠ .closed uri) :
    AboutOpen r c := by
  cases hwrites with
  | opens => exact absurd rfl (hopens _ _ _ _)
  | changes hopen =>
    exact aboutOpen_of_session hopen (namedFiles_changeArguments _ _ _) (by decide) _
  | closes => exact absurd rfl (hcloses _)
  | ends => exact aboutOpen_of_nameless (by simp [Service.Command.files, Json.namedFiles, Json.get,
      Json.get?, Json.fields, Json.str?, Json.items])
  | tells =>
    cases hdoes with
    | told name arguments htells => exact aboutOpen_of_nameless htells
  | checks hchecks => exact aboutOpen_of_checksOpen hchecks

/-- Opening a document opens its file, if its URI names one. -/
theorem fileStep_opened {uri languageId : String} {version : Int} {text : String}
    (hcollected : r.outbox = []) (hup : r.link.closed = none)
    (hdoes : Does .editor r (.opened uri languageId version text) r') (hsound : r.Sound)
    (hwrites : ∀ c ∈ commands r'.outbox, Deed.Writes r (.opened uri languageId version text) c) :
    FileStep r r' (commands r'.outbox) := by
  have hfiles := fileAt_does hdoes hsound
  simp only [Deed.fileAfter] at hfiles
  cases hdoes with
  | opened =>
    cases hfile : Uri.fileOf? uri with
    | none =>
      refine .still (fun u => by simp [hfiles u, hfile]) fun c hc => ?_
      cases hwrites c hc with
      | opens hopened => simp [hfile] at hopened
      | checks hchecks => exact aboutOpen_of_checksOpen hchecks
    | some file =>
      obtain ⟨fx, seq, rest, hfx, hcs, hrest⟩ :=
        (Relay.openDocument_file uri languageId version text r).2 file hfile
          (hsound.refusal?_eq.trans hup)
      -- a check that is scheduled is written later, by its timer
      obtain ⟨fy, hfy, hnone⟩ :=
        Relay.autoSchedule_silent uri (r.openDocument uri languageId version text)
      have hall : commands (r.didOpen uri languageId version text).1.outbox = _ :=
        commands_of_added hcollected (hfy.trans (by rw [hfx, List.append_assoc]))
          (by rw [commands_append, hcs, hnone, List.append_nil])
      rw [hall] at hwrites ⊢
      refine .opening hfile (fun u => by simp [hfiles u, hfile])
        (namedFiles_openArguments _ _ _ _) fun c hc => ?_
      -- checks are written again on opening, but the file is opened once
      cases hwrites c (List.mem_cons_of_mem _ hc) with
      | opens => exact absurd List.mem_cons_self (hrest _ hc)
      | checks hchecks => exact aboutOpen_of_checksOpen hchecks

/-- Closing a document closes its file, if it is open. -/
theorem fileStep_closed {uri : String} (hcollected : r.outbox = []) (hup : r.link.closed = none)
    (hdoes : Does .editor r (.closed uri) r') (hsound : r.Sound)
    (hwrites : ∀ c ∈ commands r'.outbox, Deed.Writes r (.closed uri) c) :
    FileStep r r' (commands r'.outbox) := by
  have hfiles := fileAt_does hdoes hsound
  simp only [Deed.fileAfter] at hfiles
  cases hdoes with
  | closed =>
    cases hopen : r.session? uri with
    | none =>
      refine .still (fun u => ?_) fun c hc => ?_
      · rw [hfiles]
        split
        · rename_i heq
          rw [← heq, Relay.fileAt, hopen, Option.map_none]
        · rfl
      · cases hwrites c hc with
        | closes hopened => simp [hopen] at hopened
        | checks hchecks hd => exact absurd rfl (hd uri)
    | some s =>
      obtain ⟨fx, seq, hfx, hcs⟩ :=
        (Relay.closeDocument_file uri r).2 s hopen (hsound.refusal?_eq.trans hup)
      have hall : commands (r.didClose uri).1.outbox =
          [⟨seq, Service.closeName, Service.fileArgument s.file⟩] := by
        obtain ⟨fy, hfy, hnone⟩ := Relay.didClose_silent uri r
        exact commands_of_added hcollected (hfy.trans (by rw [hfx, List.append_assoc]))
          (by rw [commands_append, hcs, hnone, List.append_nil])
      rw [hall]
      exact .closing (Relay.fileAt_of_session hopen) hfiles (namedFiles_fileArgument s.file)

/-- **What a deed writes at once is about open files**, but for the command that
opens or closes one. -/
theorem fileStep_does (hdoes : Does .editor r d r') (hsound : r.Sound) (hcollected : r.outbox = [])
    (hup : r.link.closed = none) : FileStep r r' (commands r'.outbox) := by
  have hfiles := fileAt_does hdoes hsound
  rcases does_cases hdoes hsound with habides | ⟨-, response, -, -, rfl⟩ | ⟨cause, rfl, -, rfl⟩
  · obtain ⟨fx, hfx, hwrites⟩ := habides.commands
    rw [← commands_of_added hcollected hfx rfl] at hwrites
    have hplain : (∀ uri languageId version text, d ≠ .opened uri languageId version text) →
        (∀ uri, d ≠ .closed uri) → FileStep r r' (commands r'.outbox) := by
      intro hopens hcloses
      refine .still (fun u => ?_) fun c hc =>
        aboutOpen_of_writes hdoes (hwrites c hc).2 hopens hcloses
      rw [hfiles]
      cases d with
      | opened => exact absurd rfl (hopens _ _ _ _)
      | closed => exact absurd rfl (hcloses _)
      | _ => rfl
    cases d with
    | opened =>
      exact fileStep_opened hcollected hup hdoes hsound fun c hc => (hwrites c hc).2
    | closed => exact fileStep_closed hcollected hup hdoes hsound fun c hc => (hwrites c hc).2
    | _ => exact hplain (by simp) (by simp)
  · obtain ⟨fx, hfx, hnone⟩ := Relay.resolve_silent response r
    rw [commands_of_added hcollected hfx hnone]
    exact .still (Relay.leaves_resolve response r).fileAt (by simp)
  · obtain ⟨fx, hfx, hnone⟩ := Relay.disconnect_silent cause r
    rw [commands_of_added hcollected hfx hnone]
    exact .still (Relay.fileAt_disconnect cause r) (by simp)

end Engine

end LanguageRelay
