import LanguageRelay.Proofs.Checks.Sound
/-!
# Files and their documents

Events name files, records are kept by document. Over documents of different
files the two agree: a relay is *linked* if each file leads to the one
document that has a record about it. Then the checks still running for a
file are those of its closed documents and those of its open one
(`running_of_check`).
-/

namespace LanguageRelay

namespace Relay

variable {uris : List String} {r r' : Relay} {uri : String} {c c' : CheckState}

/-- **Each file leads to the document whose record is about it**, and the open
documents are among `uris`. -/
structure Linked (uris : List String) (r : Relay) : Prop where
  known : ∀ uri s, r.session? uri = some s → uri ∈ uris
  leads : ∀ file uri, Table.get? file r.uriByFile = some uri ↔
    (r.check? uri).map CheckState.file = some file
  /-- Each file of closed documents is kept once. -/
  single : (Table.keys r.abandoned).Nodup

theorem linked_new (uris : List String) (setup : Setup) : Linked uris (Relay.new setup) where
  known uri s h := by simp [Relay.new, session?] at h
  leads file uri := by simp [Relay.new, check?]
  single := List.nodup_nil

theorem Linked.mono {uris' : List String} (hsub : ∀ u ∈ uris, u ∈ uris') (h : Linked uris r) :
    Linked uris' r :=
  { h with known := fun uri s hs => hsub uri (h.known uri s hs) }

/-- A document is found by the file of its record. -/
theorem Linked.get? (h : Linked uris r) (hcheck : r.check? uri = some c) :
    Table.get? c.file r.uriByFile = some uri :=
  (h.leads c.file uri).mpr (by simp [hcheck])

/-- Two records are about different files. -/
theorem Linked.inj (h : Linked uris r) {u : String} {d : CheckState} (hc : r.check? uri = some c)
    (hd : r.check? u = some d) (hfile : c.file = d.file) : uri = u :=
  Option.some.inj ((h.get? hc).symm.trans (by rw [hfile, h.get? hd]))

/-! ## What keeps the links -/

/-- As long as records keep their files, so do the links. -/
theorem Linked.keep (h : Linked uris r) (hknown : ∀ uri s, r'.session? uri = some s → uri ∈ uris)
    (huri : r'.uriByFile = r.uriByFile) (hsingle : (Table.keys r'.abandoned).Nodup)
    (hfiles : ∀ uri, (r'.check? uri).map CheckState.file = (r.check? uri).map CheckState.file) :
    Linked uris r' where
  known := hknown
  leads file uri := by rw [huri, hfiles, h.leads]
  single := hsingle

/-- A record that is set keeps its file. -/
theorem files_put (hcheck : r.check? uri = some c) (hfile : c'.file = c.file)
    (hchecks : r'.checks = Table.put uri c' r.checks) (u : String) :
    (r'.check? u).map CheckState.file = (r.check? u).map CheckState.file := by
  rw [check?_put hchecks]
  split
  · rename_i heq
    rw [← heq, hcheck]
    simp [hfile]
  · rfl

theorem Linked.quiet (h : Linked uris r) (hq : Quiet r r') : Linked uris r' :=
  h.keep (fun uri s hs => h.known uri s (by rwa [← hq.session?])) hq.uriByFile
    (by rw [hq.abandoned]; exact h.single) fun uri => by rw [hq.check?]

theorem Linked.put (h : Linked uris r) (c' : CheckState) (hcheck : r.check? uri = some c)
    (hfile : c'.file = c.file) (hchecks : r'.checks = Table.put uri c' r.checks)
    (hsessions : r'.sessions = r.sessions) (huri : r'.uriByFile = r.uriByFile)
    (hsingle : (Table.keys r'.abandoned).Nodup) :
    Linked uris r' :=
  h.keep (fun uri s hs => h.known uri s (by rwa [session?, hsessions] at hs)) huri hsingle
    (files_put hcheck hfile hchecks)

theorem Linked.mapChecks (h : Linked uris r) {f : CheckState → CheckState}
    (hfile : ∀ c, (f c).file = c.file) : Linked uris (r.mapChecks f) :=
  h.keep h.known rfl h.single fun uri => by
    rw [check?_mapChecks]
    cases r.check? uri <;> simp [hfile]

theorem Linked.withAbandoned (h : Linked uris r) {abandoned : List (String × List InFlight)}
    (hsingle : (Table.keys abandoned).Nodup) : Linked uris { r with abandoned } :=
  h.keep h.known rfl hsingle fun _ => rfl

/-- Settling keeps the links. -/
theorem Linked.settle (h : Linked uris r) (hcheck : r.check? uri = some c)
    (hfile : c'.file = c.file) : Linked uris (r.settle uri c').1 := by
  obtain ⟨fresh, fx, hshape, -⟩ := settle_shape uri c' r
  rw [hshape]
  exact h.put { c'.ended with fresh } hcheck hfile rfl rfl rfl h.single

/-- **A document gets its record**: no other open document is of its file. -/
theorem Linked.enroll (hd : DistinctFiles uris) (hsound : r.Sound) (h : Linked uris r) {s : Session}
    (hopen : r.session? uri = some s) (hnone : r.check? uri = none) :
    Linked uris { r.setCheck uri (CheckState.new s.file) with
      uriByFile := Table.put s.file uri r.uriByFile } where
  known := h.known
  leads file u := by
    have hfile := (hsound.filed uri s hopen).2
    change Table.get? file (Table.put s.file uri r.uriByFile) = some u ↔
      ((r.setCheck uri (CheckState.new s.file)).check? u).map CheckState.file = some file
    rw [Table.get?_put, check?_setCheck]
    by_cases hu : uri = u
    · subst hu
      by_cases hf : s.file = file
      · simp [hf, CheckState.new]
      · simp [hf, CheckState.new, h.leads, hnone]
    · by_cases hf : s.file = file
      · subst hf
        simp only [if_pos, Option.some.injEq, hu, false_iff]
        -- another record about the file would be of another open document of it
        intro hu'
        obtain ⟨d, hcheck, hdfile⟩ := Option.map_eq_some_iff.mp hu'
        obtain ⟨t, ht, htfile⟩ := hsound.opened u d hcheck
        have htarget := (hsound.filed u t ht).2
        rw [htfile, hdfile] at htarget
        exact hu (hd uri (h.known uri s hopen) u (h.known u t ht) s.file hfile htarget)
      · simp [hf, hu, h.leads]
  single := h.single

theorem Linked.eraseSession (h : Linked uris r) (uri : String) :
    Linked uris { r with sessions := Table.erase uri r.sessions } := by
  refine h.keep (fun u s hs => ?_) rfl h.single fun _ => rfl
  rw [session?, Table.get?_erase] at hs
  split at hs
  · simp at hs
  · exact h.known u s hs

/-- A closed document is found no more, and its running checks are kept. -/
theorem Linked.forget (h : Linked uris r) (uri : String) : Linked uris (r.forget uri) := by
  have hknown : ∀ u s, (r.forget uri).session? u = some s → u ∈ uris := fun u s hs =>
    h.known u s (by rwa [← (leaves_forget uri r).session?])
  cases hcheck : r.check? uri with
  | none =>
    rw [forget_of_none hcheck]
    exact h.quiet (quiet_disarm uri r)
  | some c =>
    have hlead := h.get? hcheck
    refine ⟨hknown, fun file u => ?_, ?_⟩
    · rw [forget_of_some hcheck]
      change Table.get? file (unlinkedFrom uri c.file r.uriByFile) = some u ↔
        (Table.get? u (Table.erase uri r.checks)).map CheckState.file = some file
      rw [unlinkedFrom, if_pos hlead, Table.get?_erase, Table.get?_erase]
      by_cases hu : uri = u
      · subst hu
        by_cases hf : c.file = file
        · simp [hf]
        · simp [hf, h.leads, hcheck]
      · by_cases hf : c.file = file
        · subst hf
          simp only [if_pos, if_neg hu, reduceCtorEq, false_iff]
          -- the file led to the closed document, and so to no other
          intro hmap
          rw [← check?, ← h.leads, hlead] at hmap
          exact hu (Option.some.inj hmap)
        · simp only [if_neg hf, if_neg hu, h.leads]
          rfl
    · rw [forget_of_some hcheck]
      change (Table.keys (abandonedAfter c r.abandoned)).Nodup
      unfold abandonedAfter
      split
      · exact h.single
      · exact Table.nodup_keys_put h.single

/-- What is left of the checks of closed documents is kept by their files. -/
theorem single_retired (h : (Table.keys r.abandoned).Nodup) (seq : Int) :
    (Table.keys (r.retireAbandoned seq).abandoned).Nodup := by
  refine List.Nodup.sublist ?_ h
  change (Table.keys (r.abandoned.filterMap (stillRunning seq))).Sublist (Table.keys r.abandoned)
  induction r.abandoned with
  | nil => exact .slnil
  | cons e rest ih =>
    rw [List.filterMap_cons]
    by_cases hleft : (e.2.filter fun d => seq < d.seq).isEmpty
    · simp only [stillRunning, hleft, if_true]
      exact ih.cons _
    · simp only [stillRunning, hleft]
      exact ih.cons_cons _

/-! ## Steps and news keep the links -/

/-- **The links are kept by every step**, over documents of different
files. -/
theorem linked_step (hd : DistinctFiles uris) (hstep : Step uris r r') (hsound : r.Sound)
    (h : Linked uris r) : Linked uris r' := by
  cases hstep with
  | quiet hq => exact h.quiet hq
  | @opened s hmem hfile =>
    refine h.keep (fun u s' hs => ?_) rfl h.single fun _ => rfl
    rw [session?_setSession] at hs
    split at hs
    · rename_i heq
      exact heq ▸ hmem
    · exact h.known u s' hs
  | @edited uri s version text hopen =>
    refine h.keep (fun u s' hs => ?_) rfl h.single fun _ => rfl
    rw [session?_setSession] at hs
    split at hs
    · rename_i heq
      have hkey := (hsound.filed uri s hopen).1
      exact heq ▸ hkey ▸ h.known uri s hopen
    · exact h.known u s' hs
  | enrolled hopen hnone => exact h.enroll hd hsound hopen hnone
  | @asked uri c hcheck hup hwhy => exact h.put (c.asked _ _) hcheck rfl rfl rfl rfl h.single
  | @awaited uri c waiter hcheck hout =>
    exact h.put { c with waiters := c.waiters ++ [⟨waiter, false⟩] } hcheck rfl
      (Table.update_eq_put _ hcheck) rfl rfl h.single
  | withdrew => exact h.mapChecks fun _ => rfl
  | staled => exact h.mapChecks fun _ => rfl
  | @dropped uri c hcheck hout hwaiters => exact h.put c.dropped hcheck rfl rfl rfl rfl h.single
  | closed => exact (h.eraseSession _).forget _
  | disconnected hup =>
    have hmap := h.mapChecks (f := CheckState.severed) fun _ => rfl
    rw [disconnect_of_open hup]
    exact ⟨hmap.known, hmap.leads, List.nodup_nil⟩

/-- **The links are kept by news of checks.** -/
theorem linked_heard {note : News} {failure : Option Failure} (hheard : Heard r note r' failure)
    (hsound : r.Sound) (h : Linked uris r) : Linked uris r' := by
  have hretired : ∀ seq, Linked uris (r.retireAbandoned seq) :=
    fun seq => h.withAbandoned (single_retired h.single seq)
  cases hheard with
  | credited => exact h.withAbandoned (Table.nodup_keys_put h.single)
  | unawaited => exact h
  | @outdated file category items e entries uri c habandoned huri hcheck =>
    exact h.put { c with inFlight := entries } hcheck rfl rfl rfl rfl h.single
  | @counted file category items e entries uri c habandoned huri hcheck =>
    exact h.put (c.counted category items entries) hcheck rfl rfl rfl rfl h.single
  | @settled file category items e entries uri c habandoned huri hcheck =>
    exact h.settle hcheck rfl
  | retired => exact hretired _
  | @overtaken seq uri c e hfind =>
    exact (hretired seq).put (c.after seq) (hsound.find hfind).1 rfl rfl rfl rfl
      (hretired seq).single
  | @repeated seq uri c e text hfind =>
    exact (hretired seq).put ((c.again seq).asked _ _) (hsound.find hfind).1 rfl
      (Table.put_put _ _ _ _) rfl rfl (hretired seq).single
  | @severed seq uri c e text cause hfind =>
    exact (hretired seq).put (c.again seq) (hsound.find hfind).1 rfl rfl rfl rfl
      (hretired seq).single
  | @exhausted seq uri c e text hfind =>
    exact ((hretired seq).quiet (quiet_log .warning text _)).settle (hsound.find hfind).1 rfl

/-! ## The checks running for a file -/

/-- The checks still running for a file, the oldest first: those of closed
documents, then those of the open one. -/
def running (file : String) (r : Relay) : List InFlight :=
  (Table.get? file r.abandoned).getD [] ++
    (((Table.get? file r.uriByFile).bind r.check?).elim [] CheckState.inFlight)

/-- The checks running for the file of a record. -/
theorem running_of_check (h : Linked uris r) (hcheck : r.check? uri = some c) :
    r.running c.file = (Table.get? c.file r.abandoned).getD [] ++ c.inFlight := by
  simp [running, h.get? hcheck, hcheck]

/-- A check in flight is running for the file of its record. -/
theorem mem_running (h : Linked uris r) (hcheck : r.check? uri = some c) {e : InFlight}
    (he : e ∈ c.inFlight) : e ∈ r.running c.file := by
  rw [running_of_check h hcheck]
  exact List.mem_append_right _ he

/-- What runs for a file depends on records, links and closed documents
alone. -/
theorem running_congr (hchecks : ∀ u, (r'.check? u).map CheckState.inFlight =
      (r.check? u).map CheckState.inFlight)
    (huri : r'.uriByFile = r.uriByFile) (habandoned : r'.abandoned = r.abandoned) (file : String) :
    r'.running file = r.running file := by
  rw [running, running, huri, habandoned]
  cases Table.get? file r.uriByFile with
  | none => rfl
  | some u =>
    have hu := hchecks u
    simp only [Option.bind_some]
    cases hc : r.check? u <;> cases hc' : r'.check? u <;> simp_all

/-- A record that is set changes what runs for its file alone. -/
theorem running_put (h : Linked uris r) (c' : CheckState) (hcheck : r.check? uri = some c)
    (hchecks : r'.checks = Table.put uri c' r.checks) (huri : r'.uriByFile = r.uriByFile)
    (habandoned : r'.abandoned = r.abandoned) (file : String) :
    r'.running file =
      if file = c.file then (Table.get? file r.abandoned).getD [] ++ c'.inFlight
      else r.running file := by
  have hrecord := check?_put hchecks
  rw [running, running, huri, habandoned]
  split
  · rename_i hfile
    rw [hfile, h.get? hcheck, Option.bind_some, hrecord, if_pos rfl]
    rfl
  · rename_i hfile
    cases hu : Table.get? file r.uriByFile with
    | none => rfl
    | some u =>
      have hne : uri ≠ u := by
        rintro rfl
        rw [h.leads, hcheck] at hu
        exact hfile (by simpa using hu.symm)
      rw [Option.bind_some, Option.bind_some, hrecord, if_neg hne]

/-- **Closing a document changes what runs for no file**: the checks move over
to those of closed documents. -/
theorem running_forget (h : Linked uris r) (uri file : String) :
    (r.forget uri).running file = r.running file := by
  cases hcheck : r.check? uri with
  | none =>
    have hq := quiet_disarm uri r
    rw [forget_of_none hcheck]
    exact running_congr (fun u => by rw [hq.check?]) hq.uriByFile hq.abandoned file
  | some c =>
    have hlead := h.get? hcheck
    rw [forget_of_some hcheck]
    change (Table.get? file (abandonedAfter c r.abandoned)).getD [] ++
      (((Table.get? file (unlinkedFrom uri c.file r.uriByFile)).bind fun u =>
        Table.get? u (Table.erase uri r.checks)).elim [] CheckState.inFlight) = _
    rw [unlinkedFrom, if_pos hlead, Table.get?_erase]
    by_cases hf : c.file = file
    · subst hf
      rw [if_pos rfl, running_of_check h hcheck, abandonedAfter]
      by_cases hnil : c.inFlight = []
      · simp [hnil]
      · simp [hnil, Table.get?_put]
    · have habandoned : Table.get? file (abandonedAfter c r.abandoned) =
          Table.get? file r.abandoned := by
        unfold abandonedAfter
        split
        · rfl
        · rw [Table.get?_put, if_neg hf]
      rw [if_neg hf, habandoned, running]
      cases hu : Table.get? file r.uriByFile with
      | none => rfl
      | some u =>
        have hne : uri ≠ u := by
          rintro rfl
          rw [h.leads, hcheck] at hu
          exact hf (by simpa using hu)
        simp only [Option.bind_some, Table.get?_erase, if_neg hne]
        rfl

/-- **Enrolling a document changes what runs for no file**: its record has no
checks in flight, and its file led to no other. -/
theorem running_enroll (h : Linked uris r) {file : String}
    (hlinked : Linked uris { r.setCheck uri (CheckState.new file) with
      uriByFile := Table.put file uri r.uriByFile })
    (hnone : r.check? uri = none) (f : String) :
    running f { r.setCheck uri (CheckState.new file) with
      uriByFile := Table.put file uri r.uriByFile } = r.running f := by
  obtain ⟨r', hr'⟩ : ∃ r' : Relay, r' = { r.setCheck uri (CheckState.new file) with
    uriByFile := Table.put file uri r.uriByFile } := ⟨_, rfl⟩
  rw [← hr'] at hlinked ⊢
  have hcheck : ∀ u, r'.check? u = if uri = u then some (CheckState.new file) else r.check? u := by
    rw [hr']
    exact check?_setCheck uri (CheckState.new file) r
  have habandoned : r'.abandoned = r.abandoned := by rw [hr']; rfl
  by_cases hf : f = file
  · subst hf
    have hnew : r'.check? uri = some (CheckState.new f) := by rw [hcheck, if_pos rfl]
    have hrunning := running_of_check hlinked hnew
    -- a document the file led to would keep its record beside the new one
    have hlead : Table.get? f r.uriByFile = none := by
      cases hu : Table.get? f r.uriByFile with
      | none => rfl
      | some u =>
        obtain ⟨d, hd, hdfile⟩ := Option.map_eq_some_iff.mp ((h.leads f u).mp hu)
        have hne : uri ≠ u := by
          rintro rfl
          rw [hnone] at hd
          simp at hd
        have hd' : r'.check? u = some d := by rw [hcheck, if_neg hne, hd]
        exact absurd (hlinked.inj hnew hd' hdfile.symm) hne
    change r'.running f = _ at hrunning
    rw [hrunning, running, hlead, habandoned]
    rfl
  · have huri : Table.get? f r'.uriByFile = Table.get? f r.uriByFile := by
      rw [hr']
      exact (Table.get?_put _ _ _ _).trans (if_neg (Ne.symm hf))
    rw [running, running, huri, habandoned]
    cases hu : Table.get? f r.uriByFile with
    | none => rfl
    | some u =>
      have hne : uri ≠ u := by
        rintro rfl
        rw [h.leads, hnone] at hu
        simp at hu
      rw [Option.bind_some, Option.bind_some, hcheck, if_neg hne]

end Relay

end LanguageRelay
