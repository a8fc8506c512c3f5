import LanguageRelay.Proofs.Checks.Newer
import LanguageRelay.Proofs.Checks.Queued
import LanguageRelay.Proofs.Checks.Settlement
import LanguageRelay.Proofs.Relay.Files
/-!
# What is published

Over documents of different files, and as long as the analysis server keeps
the order, every notification tells what one check reported
(`publication`): the oldest of the queue, a check of the document's own file
that was written after the last change of the document.

Along a run, the relay is beside the queue (`queued_run`), so that what is
settled is what the oldest check told. It is the newest of its document as
well, since parts are awaited from no other, and the newest was written
after the last change (`newer_run`).
-/

namespace LanguageRelay

namespace Relay

variable {uris : List String} {r r' : Relay} {uri : String} {c : CheckState}
variable {parts : List (String × List Json)} {n : Nat} {setup : Setup} {moves : List Move}

/-! ## Along a run -/

theorem Queued.mono {uris' : List String} (hsub : ∀ u ∈ uris, u ∈ uris')
    (h : Queued uris n parts r) : Queued uris' n parts r :=
  { h with linked := h.linked.mono hsub }

theorem queued_new (uris : List String) (setup : Setup) : Queued uris 0 [] (Relay.new setup) where
  linked := linked_new uris setup
  complete := Nat.zero_le _
  aligned := aligned_new setup
  gathered uri c hc := by simp [Relay.new, check?] at hc

/-- The check at a place of the queue is the oldest of what is left there. -/
theorem exists_drop_of_getElem? {α : Type} {l : List α} {a : α} (h : l[n]? = some a) :
    ∃ rest, l.drop n = a :: rest := by
  obtain ⟨hlt, heq⟩ := List.getElem?_eq_some_iff.mp h
  exact ⟨l.drop (n + 1), by rw [List.drop_eq_getElem_cons hlt, heq]⟩

/-- No two open documents are of one file. -/
def FilesApart (r : Relay) : Prop :=
  ∀ u v file, r.fileAt u = some file → r.fileAt v = some file → u = v

/-- **Documents that are open at the same time are of different files**, all along a
run. -/
def ApartAlong (setup : Setup) (moves : List Move) : Prop :=
  ∀ first rest, moves = first ++ rest → FilesApart (run first (Relay.new setup))

theorem ApartAlong.of_append {rest : List Move} (h : ApartAlong setup (moves ++ rest)) :
    ApartAlong setup moves := by
  rintro first middle rfl
  exact h first (middle ++ rest) (List.append_assoc ..)

theorem ApartAlong.last (h : ApartAlong setup moves) : FilesApart (run moves (Relay.new setup)) :=
  h moves [] (List.append_nil _).symm

theorem mem_uris_iff : uri ∈ r.uris ↔ ∃ s, r.session? uri = some s := by
  rw [uris, Table.mem_keys_iff, Option.isSome_iff_exists, session?]

/-- A document that is open after a move was open before, or the move opens it. -/
theorem opened_of_session {m : Move} (hsound : r.Sound)
    (h : (m.perform r).1.fileAt uri ≠ none) : r.fileAt uri ≠ none ∨ uri ∈ openedUris [m] := by
  have hleft : m.edited? = none → ¬ m.IsDisconnect → r.fileAt uri ≠ none := fun hm hd =>
    (leaves_perform hm hd r).fileAt uri ▸ h
  cases m with
  | openDocument u languageId version content =>
    by_cases hu : uri = u
    · exact .inr (by simp [openedUris, hu])
    · refine .inl fun hnone => h ?_
      exact ((openDocument_file u languageId version content r).1 uri).trans
        ((if_neg fun hand => hu hand.1.symm).trans hnone)
  | changeDocument u version changes =>
    refine .inl fun hnone => h ?_
    have hchanges := changesOnly_changeDocument (fun s hs => (hsound.filed u s hs).1) version
      changes
    exact (hchanges.fileAt uri).trans hnone
  | closeDocument u =>
    refine .inl fun hnone => h ?_
    refine ((closeDocument_file u r).1 uri).trans ?_
    split
    · rfl
    · exact hnone
  | disconnect cause => exact .inl (fileAt_disconnect cause r uri ▸ h)
  | _ => exact .inl (hleft rfl id)

/-- The documents that are open were opened. -/
theorem uris_subset_openedUris (setup : Setup) (moves : List Move) :
    ∀ u ∈ (run moves (Relay.new setup)).uris, u ∈ openedUris moves := by
  intro u hu
  obtain ⟨s, hs⟩ := mem_uris_iff.mp hu
  have hfile : (run moves (Relay.new setup)).fileAt u ≠ none := by simp [fileAt_of_session hs]
  clear hs hu
  induction moves using List.reverseRecOn with
  | nil => simp [Relay.new, fileAt, session?] at hfile
  | append_singleton moves m ih =>
    rw [openedUris_append, List.mem_append]
    rw [run_snoc] at hfile
    exact (opened_of_session (sound_run setup moves) hfile).imp_left ih

/-- The documents of a run are of different files if those it opens are. -/
theorem apartAlong_of_distinctFiles (h : DistinctFiles (openedUris moves)) :
    ApartAlong setup moves := by
  rintro first rest rfl u v file hu hv
  have hsound := sound_run setup first
  have hopened : ∀ w, (run first (Relay.new setup)).fileAt w = some file →
      w ∈ openedUris (first ++ rest) ∧ Uri.fileOf? w = some file := by
    intro w hw
    obtain ⟨s, hs, rfl⟩ := Option.map_eq_some_iff.mp hw
    rw [openedUris_append]
    exact ⟨List.mem_append_left _
      (uris_subset_openedUris setup first w (mem_uris_iff.mpr ⟨s, hs⟩)), (hsound.filed w s hs).2⟩
  exact h u (hopened u hu).1 v (hopened v hv).1 file (hopened u hu).2 (hopened v hv).2

/-- Where one document alone is opened, there is nothing to keep apart. -/
theorem apartAlong_of_single (h : ∀ u ∈ openedUris moves, u = uri) : ApartAlong setup moves :=
  apartAlong_of_distinctFiles fun u hu v hv _ _ _ => (h u hu).trans (h v hv).symm

/-- What is open before a move or opened by it is of different files, if what is open
before and after is. -/
theorem distinctFiles_move {m : Move} (hsound : r.Sound) (h : FilesApart r)
    (h' : FilesApart (m.perform r).1) : DistinctFiles (r.uris ++ openedUris [m]) := by
  have hfiled : ∀ u ∈ r.uris, ∀ file, Uri.fileOf? u = some file → r.fileAt u = some file := by
    intro u hu file hfile
    obtain ⟨s, hs⟩ := mem_uris_iff.mp hu
    rw [fileAt_of_session hs, ← (hsound.filed u s hs).2, hfile]
  cases m with
  | openDocument w languageId version content =>
    have hnow : ∀ u ∈ r.uris ++ openedUris [.openDocument w languageId version content],
        ∀ file, Uri.fileOf? u = some file →
          (r.openDocument w languageId version content).1.fileAt u = some file := by
      intro u hu file hfile
      rw [(openDocument_file w languageId version content r).1]
      split
      · rename_i hand
        rw [hand.1, hfile]
      · rename_i hand
        rcases List.mem_append.mp hu with hu | hu
        · exact hfiled u hu file hfile
        · obtain rfl : u = w := by simpa [openedUris] using hu
          exact absurd ⟨rfl, by simp [hfile]⟩ hand
    exact fun u hu v hv file hfile hfile' =>
      h' u v file (hnow u hu file hfile) (hnow v hv file hfile')
  | _ =>
    refine fun u hu v hv file hfile hfile' => h u v file (hfiled u ?_ file hfile)
      (hfiled v ?_ file hfile')
    · simpa [openedUris] using hu
    · simpa [openedUris] using hv

/-- **Along a run the relay is beside the queue**, as long as documents open at the
same time are of different files. -/
theorem queued_along (hfiles : ApartAlong setup moves) (horder : InOrder setup moves) :
    Queued (run moves (Relay.new setup)).uris (completions (heard moves))
      (reports (completions (heard moves)) (heard moves)) (run moves (Relay.new setup)) := by
  induction horder with
  | nil => exact queued_new _ setup
  | @snoc moves m horder hnext ih =>
    have hsound := sound_run setup moves
    have hdistinct := distinctFiles_move hsound hfiles.of_append.last
      (run_snoc .. ▸ hfiles.last : FilesApart (m.perform (run moves (Relay.new setup))).1)
    have hqueued := (ih hfiles.of_append).mono fun u => List.mem_append_left (openedUris [m])
    -- which documents are open is read off the sessions again afterwards
    suffices h : Queued ((run moves (Relay.new setup)).uris ++ openedUris [m])
        (completions (heard (moves ++ [m])))
        (reports (completions (heard (moves ++ [m]))) (heard (moves ++ [m])))
        (run (moves ++ [m]) (Relay.new setup)) from
      { h with linked := { h.linked with known := fun u s hs => mem_uris_iff.mpr ⟨s, hs⟩ } }
    rw [run_snoc, heard_snoc]
    generalize run moves (Relay.new setup) = r at hsound hnext hqueued hdistinct ⊢
    cases hnews : m.news? with
    | none =>
      -- no news: the move is a chain of steps, each beside the same queue
      rw [Option.toList_none, List.append_nil]
      have hkey : ∀ uri s, r.session? uri = some s → s.uri = uri :=
        fun uri s hs => (hsound.filed uri s hs).1
      exact (Steps.keep (P := fun r' => r'.Sound ∧ Queued (r.uris ++ openedUris [m]) _ _ r')
        (fun _ _ hstep h => ⟨sound_step hstep h.1, queued_step hdistinct hstep h.1 h.2⟩)
        (steps_perform hnews (fun u => List.mem_append_right r.uris) hkey)
        ⟨hsound, hqueued⟩).2
    | some note =>
      have hheard := heard_hear note r
      refine Queued.quiet ?_ (perform_of_news hnews r).1
      rw [Option.toList_some]
      cases note with
      | part file category items =>
        obtain ⟨⟨seq, hplace⟩, hnew⟩ := hnext _ hnews
        obtain ⟨rest, hdue⟩ := exists_drop_of_getElem? hplace
        rw [completions_append, show completions [News.part file category items] = 0 from rfl,
          Nat.add_zero, reports_part]
        exact queued_part hheard hsound hqueued hdue hnew
      | completed seq =>
        obtain ⟨file, hplace⟩ := hnext _ hnews
        obtain ⟨rest, hdue⟩ := exists_drop_of_getElem? hplace
        have hone : completions [News.completed seq] = 1 := rfl
        rw [completions_append, hone, reports_completed]
        exact queued_over hheard hsound hqueued hdue

/-- The same, where all documents that are opened are of different files. -/
theorem queued_run (hfiles : DistinctFiles (openedUris moves)) (horder : InOrder setup moves) :
    Queued (openedUris moves) (completions (heard moves))
      (reports (completions (heard moves)) (heard moves)) (run moves (Relay.new setup)) :=
  (queued_along (apartAlong_of_distinctFiles hfiles) horder).mono
    (uris_subset_openedUris setup moves)

/-- A run numbers commands on. -/
theorem numbersOn_run (moves : List Move) {r : Relay} (hsound : r.Sound) :
    NumbersOn r (run moves r) :=
  (run_induction (P := fun r' => r'.Sound ∧ NumbersOn r r') ⟨hsound, .refl r⟩
    (fun _ m h => ⟨sound_perform m h.1,
      h.2.trans (numbersOn_perform m fun uri s hs => (h.1.filed uri s hs).1)⟩) moves).2

/-- **Commands are numbered along a run.** -/
theorem numbered_run (setup : Setup) (moves : List Move) :
    (run moves (Relay.new setup)).Numbered :=
  (numbered_new setup).on (numbersOn_run moves (sound_new setup))

/-- The check was written after every edit of the document: after all that was
written before the edit, and after the text told with it. -/
def AfterEdits (setup : Setup) (moves : List Move) (uri : String) (seq : Int) : Prop :=
  ∀ before edit after, moves = before ++ edit :: after → edit.edited? = some uri →
    (run before (Relay.new setup)).link.last < seq ∧
    ∀ command, .sent command ∈ (run (before ++ [edit]) (Relay.new setup)).outbox →
      (Effect.sent command).TellsText → command.seq < seq

/-- **Along a run, parts are awaited from checks alone that were written after
every edit of their document.** -/
theorem newer_run (setup : Setup) (moves : List Move) {e : InFlight}
    (hcheck : (run moves (Relay.new setup)).check? uri = some c) (hout : c.outstanding ≠ [])
    (he : c.inFlight.getLast? = some e) : AfterEdits setup moves uri e.seq := by
  rintro before edit after rfl hedit
  -- the edit cuts the checks off, and no move after it brings older ones back
  obtain ⟨bound, hnewer, hlast, htexts⟩ :=
    cutOff_edit hedit (sound_run setup before) (numbered_run setup before)
  have hsplit : run (before ++ edit :: after) (Relay.new setup) =
      run after (edit.perform (run before (Relay.new setup))).1 := by
    simp [run]
  have hkept : Newer bound uri (run (before ++ edit :: after) (Relay.new setup)) := by
    rw [hsplit]
    exact (run_induction (P := fun r => r.Sound ∧ Newer bound uri r)
      ⟨sound_perform edit (sound_run setup before), hnewer⟩
      (fun r m h => ⟨sound_perform m h.1, newer_perform m h.1 h.2⟩) after).2
  have hlt := hkept.newest c hcheck hout e he
  refine ⟨by omega, fun command hsent htells => ?_⟩
  rw [run_snoc] at hsent
  have hle := htexts command hsent htells
  omega

/-! ## What is settled -/

/-- The effect, if it publishes diagnostics, tells what the check numbered
`seq` reported: parts were awaited from it as the newest of the document, with
the version of the session. -/
def ToldBy (r : Relay) (seq : Int) (parts : List (String × List Json)) : Effect → Prop
  | .published uri diagnostics version =>
    ∃ s c e, r.session? uri = some s ∧ version = some s.version ∧ r.check? uri = some c ∧
      c.outstanding ≠ [] ∧ c.inFlight.getLast? = some e ∧ (e.seq : Int) = seq ∧
      (∀ entry ∈ mergedEntries r.setup.categories parts, Diagnostic.Settleable entry) ∧
      diagnostics = Diagnostic.convertible (mergedEntries r.setup.categories parts)
  | _ => True

/-- Entries depend on the parts of the categories set up. -/
theorem mergedEntries_congr {categories : List String} {merged merged' : List (String × List Json)}
    (h : ∀ k ∈ categories, Table.get? k merged = Table.get? k merged') :
    mergedEntries categories merged = mergedEntries categories merged' :=
  List.flatMap_congr fun k hk => by rw [h k hk]

/-- What settling publishes is of the document and of what was gathered. -/
theorem adds_settle {seq : Int} (hcheck : r.check? uri = some c) (hout : c.outstanding ≠ [])
    {e : InFlight} (he : c.inFlight.getLast? = some e) (hseq : (e.seq : Int) = seq) {d : CheckState}
    (hmerged : ∀ k ∈ r.setup.categories, Table.get? k d.merged = Table.get? k parts)
    (hsessions : r'.sessions = r.sessions) (hsetup : r'.setup = r.setup) :
    Adds (ToldBy r seq parts) r' (r'.settle uri d).1 := by
  refine (adds_settling uri d r').mono fun x hx => ?_
  cases hx with
  | @published s faults diagnostics hopen hentries =>
    rw [hsetup, mergedEntries_congr hmerged] at hentries
    have hall : ∀ entry ∈ mergedEntries r.setup.categories parts, Diagnostic.Settleable entry := by
      by_contra hnot
      obtain ⟨_, _, hof⟩ := Diagnostic.ofEntries_of_not_settleable hnot
      simp [hof] at hentries
    obtain ⟨_, hof⟩ := Diagnostic.ofEntries_of_settleable hall
    rw [hof] at hentries
    cases hentries
    exact ⟨s, c, e, by rwa [session?, ← hsessions], rfl, hcheck, hout, he, hseq, hall, rfl⟩
  | _ => trivial

/-- **A part publishes at most what its check told, with that part.** -/
theorem told_part {seq : Int} {file category : String} {items : List Json}
    {failure : Option Failure} (hheard : Heard r (.part file category items) r' failure)
    (hsound : r.Sound) (h : Queued uris n parts r) {rest : List (Int × String)}
    (hdue : (written r.outbox).drop n = (seq, file) :: rest) (hnew : category ∉ Table.keys parts) :
    Adds (ToldBy r seq (parts ++ [(category, items)])) r r' := by
  cases hheard with
  | @settled _ _ _ e entries uri c habandoned huri hcheck hmark hcurrent hawaited hleft =>
    have hout : c.outstanding ≠ [] := List.ne_nil_of_mem hawaited
    have hup := hsound.up hcheck hout
    obtain ⟨earlier, hlist, -⟩ := (hsound.states uri c hcheck).mark_newest hmark hcurrent
    have hnewest : c.inFlight.getLast? = some e := by simp [hlist]
    obtain ⟨-, -, hseq, -⟩ := h.marked hup hdue hnew habandoned huri hcheck hmark
    refine adds_settle hcheck hout hnewest hseq (fun k hk => ?_) rfl rfl
    exact CheckState.told_counted (h.told hdue hcheck hout hnewest hseq hk) hnew items entries
  | _ => exact .of_outbox_eq rfl

/-- **A completion publishes at most what the check told that completed.** -/
theorem told_over {seq : Int} {file : String} {failure : Option Failure}
    (hheard : Heard r (.completed seq) r' failure) (hsound : r.Sound) (h : Queued uris n parts r)
    {rest : List (Int × String)} (hdue : (written r.outbox).drop n = (seq, file) :: rest) :
    Adds (ToldBy r seq parts) r r' := by
  cases hheard with
  | retired => exact .of_outbox_eq rfl
  | overtaken => exact .of_outbox_eq rfl
  | @repeated _ uri c e text =>
    have hlogged : Adds (ToldBy r seq parts) r ((r.completed seq uri c).log .info text) :=
      ⟨[_], rfl, by simp [ToldBy]⟩
    exact hlogged.trans ⟨[_], rfl, by simp [ToldBy]⟩
  | severed => exact ⟨[_], rfl, by simp [ToldBy]⟩
  | @exhausted _ uri c e text hfind hcurrent hawaited hpatient =>
    obtain ⟨hcheck, he, hseq⟩ := hsound.find hfind
    -- the check that completed is of the current generation, and so the newest
    have hnewest := (hsound.states uri c hcheck).newest_of_current he hcurrent hawaited
    have hlogged : Adds (ToldBy r seq parts) r ((r.retireAbandoned seq).log .warning text) :=
      ⟨[_], rfl, by simp [ToldBy]⟩
    exact hlogged.trans (adds_settle hcheck hawaited hnewest hseq
      (fun k hk => h.told hdue hcheck hawaited hnewest hseq hk) rfl rfl)

/-- A relay publishes nothing of its own accord. -/
theorem unpublished_step (hstep : Step uris r r') : Adds (fun e => ¬ e.Publishes) r r' := by
  cases hstep with
  | quiet hq =>
    refine hq.adds.mono fun e he => ?_
    cases e with
    | published => exact absurd trivial he
    | _ => exact id
  | asked => exact ⟨[_], rfl, by simp [Effect.Publishes]⟩
  | closed => exact (adds_forget _ { r with sessions := _ }).mono fun _ he => he.2
  | disconnected hup => exact (adds_disconnect hup _).mono fun _ he => he.2
  | _ => exact .of_outbox_eq rfl

/-! ## The notifications of a run -/

/-- The entries that the check at the front of the queue has reported once the
move is made, category by category in the order set up. -/
def reportedEntries (setup : Setup) (moves : List Move) (m : Move) : List Json :=
  setup.categories.flatMap fun category =>
    (Table.get? category
      (reports (completions (heard moves)) (heard (moves ++ [m])))).getD []

/-- **A faithful notification** of a document, made by a move after others:
with the version of its session, it tells what converts of the entries one
check reported, and all others are skipped. That check is the oldest to be
completed, of the document's file, and was written after every edit of the
document. -/
def Faithful (setup : Setup) (moves : List Move) (m : Move) : Effect → Prop
  | .published uri diagnostics version =>
    ∃ s seq, (run moves (Relay.new setup)).session? uri = some s ∧ version = some s.version ∧
      (written (run moves (Relay.new setup)).outbox)[completions (heard moves)]? =
        some (seq, s.file) ∧
      AfterEdits setup moves uri seq ∧
      (∀ entry ∈ reportedEntries setup moves m, Diagnostic.Settleable entry) ∧
      diagnostics = Diagnostic.convertible (reportedEntries setup moves m)
  | _ => True

/-- What tells the reports of the oldest check is faithful. -/
theorem faithful_of_toldBy {m : Move} {seq : Int} {file : String}
    (hqueued : Queued uris (completions (heard moves)) (reports (completions (heard moves))
      (heard moves)) (run moves (Relay.new setup)))
    (hplace : (written (run moves (Relay.new setup)).outbox)[completions (heard moves)]? =
      some (seq, file))
    (hparts : parts = reports (completions (heard moves)) (heard (moves ++ [m]))) {fx : Effect}
    (h : ToldBy (run moves (Relay.new setup)) seq parts fx) : Faithful setup moves m fx := by
  have hsound := sound_run setup moves
  cases fx with
  | published uri diagnostics version =>
    obtain ⟨s, c, e, hs, hversion, hcheck, hout, he, hseq, hentries, hdiagnostics⟩ := h
    have hup := hsound.up hcheck hout
    obtain ⟨rest, hdue⟩ := exists_drop_of_getElem? hplace
    -- one number is that of one check, so the check is of the document's file
    have hfile : s.file = file := by
      obtain ⟨s', hs', hfile'⟩ := hsound.opened uri c hcheck
      cases hs.symm.trans hs'
      rw [hfile']
      have hmem := hqueued.aligned.mem hup
        (mem_running hqueued.linked hcheck (List.mem_of_getLast? he))
      rw [hseq] at hmem
      exact hqueued.aligned.file_eq hmem (by rw [hdue]; exact List.mem_cons_self)
    have hafter := newer_run setup moves hcheck hout he
    rw [hparts, setup_run] at hentries hdiagnostics
    exact ⟨s, seq, hs, hversion, by rw [hfile, hplace], hseq ▸ hafter, hentries, hdiagnostics⟩
  | _ => trivial

/-- **Every notification is faithful**, over documents of different files and
news in the order of the analysis server. -/
theorem publication (setup : Setup) (moves : List Move) (m : Move)
    (hfiles : DistinctFiles (openedUris (moves ++ [m]))) (horder : InOrder setup (moves ++ [m])) :
    Adds (Faithful setup moves m) (run moves (Relay.new setup))
      (run (moves ++ [m]) (Relay.new setup)) := by
  have hunpublished : ∀ e : Effect, ¬ e.Publishes → Faithful setup moves m e := by
    intro e he
    cases e with
    | published => exact absurd trivial he
    | _ => trivial
  have hsound := sound_run setup moves
  have hqueued := queued_run hfiles.of_snoc horder.of_snoc.1
  rw [run_snoc]
  cases hnews : m.news? with
  | none =>
    have hsteps := steps_perform hnews (fun _ => id) fun uri s hs => (hsound.filed uri s hs).1
    refine Adds.mono hunpublished ?_
    exact Steps.keep (P := Adds (fun e => ¬ e.Publishes) (run moves (Relay.new setup)))
      (fun _ _ hstep h => h.trans (unpublished_step hstep)) hsteps (.refl _ _)
  | some note =>
    have hquiet := (perform_of_news hnews (run moves (Relay.new setup))).1
    refine Adds.trans ?_ (hquiet.adds.mono fun e he => hunpublished e fun hpublishes => he ?_)
    · have hheard := heard_hear note (run moves (Relay.new setup))
      have hnext := horder.of_snoc.2 note hnews
      cases note with
      | part file category items =>
        obtain ⟨⟨seq, hplace⟩, hnew⟩ := hnext
        obtain ⟨rest, hdue⟩ := exists_drop_of_getElem? hplace
        refine (told_part hheard hsound hqueued hdue hnew).mono fun e =>
          faithful_of_toldBy hqueued hplace ?_
        rw [heard_snoc, hnews, Option.toList_some, reports_part]
      | completed seq =>
        obtain ⟨file, hplace⟩ := hnext
        obtain ⟨rest, hdue⟩ := exists_drop_of_getElem? hplace
        refine (told_over hheard hsound hqueued hdue).mono fun e =>
          faithful_of_toldBy hqueued hplace ?_
        rw [heard_snoc, hnews, Option.toList_some, reports_over]
    · cases e with
      | published => trivial
      | _ => exact absurd hpublishes id

/-- A call waits for the diagnostics of a document, the document is changed, and
then the check written before the change reports and completes. -/
def overtaken : List Move :=
  [.openDocument "file:///a.ts" "typescript" 1 "x", .requestCheck "file:///a.ts" 7,
    .changeDocument "file:///a.ts" 2 [⟨none, "y"⟩],
    .receive (.obj (syntaxPart [.int 5]).toFields),
    .receive (.obj
      (Service.Event.toFields ⟨0, "requestCompleted", .obj [("request_seq", .int 2)]⟩))]

/-- An entry about the first character. -/
def entryAtStart : Json :=
  .obj [("start", .obj [("line", .int 1), ("offset", .int 1)]),
    ("end", .obj [("line", .int 1), ("offset", .int 2)]), ("text", .str "bad")]

/-- The diagnostic it converts to. -/
def diagnosticAtStart : Diagnostic :=
  { range := ⟨⟨0, 0⟩, ⟨0, 1⟩⟩, message := "bad", severity := .error, code := none
    source := "typescript", tags := [], related := [] }

/-- The check written with the change reports. -/
def lastPart : Move := .receive (.obj (syntaxPart [entryAtStart]).toFields)

theorem inOrder_overtaken : InOrder syntaxOnly (overtaken ++ [lastPart]) := by
  have hasked : InOrder syntaxOnly (overtaken.take 3) :=
    ((InOrder.nil.without_news (m := overtaken[0]) rfl).without_news (m := overtaken[1])
      rfl).without_news (m := overtaken[2]) rfl
  have hpart : InOrder syntaxOnly (overtaken.take 3 ++ [overtaken[3]]) := by
    refine .snoc hasked fun note hnote => ?_
    obtain rfl : .part "/a.ts" "syntax" [.int 5] = note := Option.some.inj hnote
    exact ⟨⟨2, rfl⟩, List.not_mem_nil⟩
  have hover : InOrder syntaxOnly (overtaken.take 4 ++ [overtaken[4]]) := by
    refine .snoc hpart fun note hnote => ?_
    obtain rfl : .completed 2 = note := Option.some.inj hnote
    exact ⟨"/a.ts", rfl⟩
  refine .snoc hover fun note hnote => ?_
  obtain rfl : .part "/a.ts" "syntax" [entryAtStart] = note := Option.some.inj hnote
  exact ⟨⟨4, rfl⟩, List.not_mem_nil⟩

/-- The entries of the overtaken check are not published, and those of the
later one are. -/
theorem publication_overtaken :
    DistinctFiles (openedUris (overtaken ++ [lastPart])) ∧
    InOrder syntaxOnly (overtaken ++ [lastPart]) ∧
    .published "file:///a.ts" [diagnosticAtStart] (some 2) ∈
      (run (overtaken ++ [lastPart]) (Relay.new syntaxOnly)).outbox ∧
    Faithful syntaxOnly overtaken lastPart
      (.published "file:///a.ts" [diagnosticAtStart] (some 2)) := by
  have hfiles : DistinctFiles (openedUris (overtaken ++ [lastPart])) := by
    intro u hu v hv _ _ _
    rw [List.mem_singleton.mp hu, List.mem_singleton.mp hv]
  have hpublished : (run (overtaken ++ [lastPart]) (Relay.new syntaxOnly)).outbox =
      (run overtaken (Relay.new syntaxOnly)).outbox ++
        [.published "file:///a.ts" [diagnosticAtStart] (some 2), .released 7 (.ok ()),
          .noticed (syntaxPart [entryAtStart])] := rfl
  obtain ⟨fx, hfx, hfaithful⟩ := publication syntaxOnly overtaken lastPart hfiles inOrder_overtaken
  obtain rfl := List.append_cancel_left (hfx.symm.trans hpublished)
  refine ⟨hfiles, inOrder_overtaken, ?_, hfaithful _ List.mem_cons_self⟩
  rw [hpublished]
  exact List.mem_append_right _ List.mem_cons_self

end Relay

end LanguageRelay
