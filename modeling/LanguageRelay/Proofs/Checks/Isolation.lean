import LanguageRelay.Proofs.Checks.Freshness
import LanguageRelay.Proofs.Checks.Publication
/-!
# Events keep to their document

An event that reports a category names a file, and one that tells of a
completed check names its number. Over documents of different files either
leads to at most one open document (`Concerns`): the file table has one
document for each file, and no check is in flight for two. The record of
every other document is left as it is, and what the event publishes, writes
and releases is for that one document (`events_keep_apart`).

No order of events is assumed: the analysis server may name any file and any
number at any time.
-/

namespace LanguageRelay

namespace Relay

variable {uris : List String} {r r' : Relay} {uri : String} {c : CheckState}
variable {setup : Setup} {moves : List Move} {event : Service.Event}

/-! ## The document an event is about -/

/-- **The event concerns an open document**: it reports a category of the
document's file, or it completes a check in flight for it. -/
inductive Concerns (r : Relay) (event : Service.Event) (uri : String) : Prop where
  | reported {category file : String} {s : Session}
      (hcategory : categoryOf? event.event = some category)
      (hfile : event.body.get "file" = .str file) (hopen : r.session? uri = some s)
      (hof : s.file = file)
  | completed {c : CheckState} {e : InFlight} (hevent : event.event = Service.completedEvent)
      (hcheck : r.check? uri = some c) (hflight : e ∈ c.inFlight)
      (hseq : (event.body.get "request_seq").exactInteger? = some (e.seq : Int))

/-- **What an event may do to the world outside**: it publishes, and releases
calls, for a document it concerns, and only a completion writes a check, of
that document's file and under the next number. Lines may be logged. -/
inductive Within (r : Relay) (event : Service.Event) : Effect → Prop where
  | logged (level : LogLevel) (text : String) : Within r event (.logged level text)
  | published {uri : String} (hconcerns : Concerns r event uri) (diagnostics : List Diagnostic)
      (version : Option Int) : Within r event (.published uri diagnostics version)
  | released {uri : String} {c : CheckState} {id : Nat} (hconcerns : Concerns r event uri)
      (hcheck : r.check? uri = some c) (hwaits : ⟨id, false⟩ ∈ c.waiters) :
      Within r event (.released id (.ok ()))
  | written {uri : String} {c : CheckState} (hevent : event.event = Service.completedEvent)
      (hconcerns : Concerns r event uri) (hcheck : r.check? uri = some c) :
      Within r event
        (.sent ⟨(r.nextSeq : Nat), Service.errorCheckName, checkArguments c.file⟩)

/-- **The file table leads back to every record**, and no check is in flight
for two documents. -/
structure Consistent (r : Relay) : Prop where
  leads : ∀ uri c, r.check? uri = some c → Table.get? c.file r.uriByFile = some uri
  apart : ∀ u v c d, r.check? u = some c → r.check? v = some d → ∀ e ∈ c.inFlight,
    ∀ e' ∈ d.inFlight, e.seq = e'.seq → u = v

theorem Linked.consistent (h : Linked uris r) (htraced : r.Traced) : r.Consistent :=
  ⟨fun _ _ => h.get?, htraced.apart⟩

/-- An event about a file is news of the document whose record is about
it. -/
theorem concerns_of_part {file category : String} {items : List Json}
    (hnews : newsOf? event = some (.part file category items)) (hsound : r.Sound)
    (hcheck : r.check? uri = some c) (hfile : c.file = file) : Concerns r event uri := by
  obtain ⟨s, hopen, hs⟩ := hsound.opened uri c hcheck
  unfold newsOf? at hnews
  split at hnews
  · cases hseq : (event.body.get "request_seq").exactInteger? <;> simp [hseq] at hnews
  · split at hnews
    · rename_i hcategory hnamed
      cases hnews
      exact .reported hcategory hnamed hopen (hs.trans hfile)
    · simp at hnews

/-- What news of a completion are: the number of the check. -/
theorem completed_of_newsOf {seq : Int} (hnews : newsOf? event = some (.completed seq)) :
    event.event = Service.completedEvent ∧
      (event.body.get "request_seq").exactInteger? = some seq := by
  unfold newsOf? at hnews
  split at hnews
  · rename_i hevent
    obtain ⟨seq', hseq, heq⟩ := Option.map_eq_some_iff.mp hnews
    cases heq
    exact ⟨hevent, hseq⟩
  · split at hnews <;> simp at hnews

/-- A completion reports no category. -/
theorem categoryOf?_completed (hevent : event.event = Service.completedEvent) :
    categoryOf? event.event = none := by
  rw [hevent]
  decide

/-- **An event concerns one document at most**, over documents of different
files. -/
theorem Concerns.unique {v : String} (hu : Concerns r event uri) (hv : Concerns r event v)
    (hfiles : FilesApart r) (htraced : r.Traced) : uri = v := by
  cases hu with
  | reported hcategory hfile hopen hof =>
    cases hv with
    | reported _ hfile' hopen' hof' =>
      cases hfile.symm.trans hfile'
      exact hfiles uri v _ ((fileAt_of_session hopen).trans (by rw [hof]))
        ((fileAt_of_session hopen').trans (by rw [hof']))
    | completed hevent => simp [categoryOf?_completed hevent] at hcategory
  | completed hevent hcheck hflight hseq =>
    cases hv with
    | reported hcategory => simp [categoryOf?_completed hevent] at hcategory
    | completed _ hcheck' hflight' hseq' =>
      exact htraced.apart uri v _ _ hcheck hcheck' _ hflight _ hflight'
        (Int.ofNat_inj.mp (Option.some.inj (hseq.symm.trans hseq')))

/-! ## What news do, and to whom -/

/-- **Confined to a document**: no other record changes, and what is done is
within the event. -/
structure Confined (event : Service.Event) (uri : String) (r r' : Relay) : Prop where
  others : ∀ u, u ≠ uri → r'.check? u = r.check? u
  adds : Adds (Within r event) r r'

/-- A record that is set is one record. -/
theorem confined_of_put (c' : CheckState) (hchecks : r'.checks = Table.put uri c' r.checks)
    (hadds : Adds (Within r event) r r') : Confined event uri r r' where
  others u hu := (check?_put hchecks u).trans (if_neg hu.symm)
  adds := hadds

/-- Settling a document publishes for it and releases its own waiters. -/
theorem Settling.within {r₀ : Relay} {d : CheckState} {x : Effect} (h : Settling uri d r₀ x)
    (hconcerns : Concerns r event uri) (hcheck : r.check? uri = some c)
    (hwaiters : d.waiters = c.waiters) : Within r event x := by
  cases h with
  | logged level text => exact .logged level text
  | published => exact .published hconcerns _ _
  | released hwaits => exact .released hconcerns hcheck (hwaiters ▸ hwaits)

/-- Settling a document leaves the records of all others. -/
theorem confined_settle (r₀ : Relay) (d : CheckState) (hconcerns : Concerns r event uri)
    (hcheck : r.check? uri = some c) (hwaiters : d.waiters = c.waiters)
    (hchecks : r₀.checks = r.checks) (hadds : Adds (Within r event) r r₀) :
    Confined event uri r (r₀.settle uri d).1 := by
  obtain ⟨fresh, fx, hshape, -⟩ := settle_shape uri d r₀
  exact confined_of_put { d.ended with fresh } (by rw [hshape, hchecks])
    (hadds.trans ((adds_settling uri d r₀).mono fun _ hx => hx.within hconcerns hcheck hwaiters))

/-- **News of checks are confined to a document that the event concerns**, or
change no record and do nothing. -/
theorem confined_heard {note : News} {failure : Option Failure} (hheard : Heard r note r' failure)
    (hnews : newsOf? event = some note) (hsound : r.Sound) (hlinked : Linked uris r) :
    (r'.checks = r.checks ∧ r'.outbox = r.outbox) ∨
      ∃ uri, Concerns r event uri ∧ Confined event uri r r' := by
  have hlog : ∀ (r₀ : Relay) level text, Adds (Within r event) r₀ (r₀.log level text) :=
    fun r₀ level text => adds_emit (.logged level text) r₀
  -- the document a part leads to is the one whose record is about the file
  have hpart : ∀ {file category items u d}, newsOf? event = some (.part file category items) →
      Table.get? file r.uriByFile = some u → r.check? u = some d → Concerns r event u := by
    intro file category items u d hnews huri hcheck
    refine concerns_of_part hnews hsound hcheck ?_
    simpa [hcheck] using (hlinked.leads file u).mp huri
  have hover : ∀ {seq u d e}, newsOf? event = some (.completed seq) →
      findInFlight? seq r.checks = some (u, d, e) →
      r.check? u = some d ∧ event.event = Service.completedEvent ∧ Concerns r event u := by
    intro seq u d e hnews hfind
    obtain ⟨hcheck, he, rfl⟩ := hsound.find hfind
    obtain ⟨hevent, hseq⟩ := completed_of_newsOf hnews
    exact ⟨hcheck, hevent, .completed hevent hcheck he hseq⟩
  cases hheard with
  | credited => exact .inl ⟨rfl, rfl⟩
  | unawaited => exact .inl ⟨rfl, rfl⟩
  | @outdated _ _ _ _ entries u c _ huri hcheck =>
    exact .inr ⟨u, hpart hnews huri hcheck,
      confined_of_put { c with inFlight := entries } rfl (.of_outbox_eq rfl)⟩
  | @counted _ category items _ entries u c _ huri hcheck =>
    exact .inr ⟨u, hpart hnews huri hcheck,
      confined_of_put (c.counted category items entries) rfl (.of_outbox_eq rfl)⟩
  | @settled _ category items _ entries u c _ huri hcheck =>
    exact .inr ⟨u, hpart hnews huri hcheck, confined_settle r (c.counted category items entries)
      (hpart hnews huri hcheck) hcheck rfl rfl (.refl _ r)⟩
  | retired => exact .inl ⟨rfl, rfl⟩
  | @overtaken seq u c _ hfind =>
    obtain ⟨-, -, hconcerns⟩ := hover hnews hfind
    exact .inr ⟨u, hconcerns, confined_of_put (c.after seq) rfl (.of_outbox_eq rfl)⟩
  | @repeated seq u c _ text hfind =>
    obtain ⟨hcheck, hevent, hconcerns⟩ := hover hnews hfind
    exact .inr ⟨u, hconcerns, confined_of_put ((c.again seq).asked r.setup.categories r.nextSeq)
      (Table.put_put _ _ _ _)
      ((hlog (r.completed seq u c) .info text).trans
        (adds_emit (.written hevent hconcerns hcheck) _))⟩
  | @severed seq u c _ text _ hfind =>
    obtain ⟨-, -, hconcerns⟩ := hover hnews hfind
    exact .inr ⟨u, hconcerns, confined_of_put (c.again seq) rfl
      (hlog ((r.retireAbandoned seq).setCheck u (c.again seq)) .info text)⟩
  | @exhausted seq u c _ text hfind =>
    obtain ⟨hcheck, -, hconcerns⟩ := hover hnews hfind
    exact .inr ⟨u, hconcerns, confined_settle ((r.retireAbandoned seq).log .warning text)
      (c.exhausted seq) hconcerns hcheck rfl rfl (hlog (r.retireAbandoned seq) .warning text)⟩

/-- What is within an event writes at most one command: all it may write has
the next number, and numbers ascend. -/
theorem length_numbers_le_one {fx : List Effect} (hwithin : ∀ x ∈ fx, Within r event x)
    (hascending : (numbers fx).Pairwise (· < ·)) : (numbers fx).length ≤ 1 := by
  have hnext : ∀ k ∈ numbers fx, k = (r.nextSeq : Int) := by
    intro k hk
    obtain ⟨x, hx, hsent⟩ := List.mem_filterMap.mp hk
    cases hwithin x hx with
    | written => exact (Option.some.inj hsent).symm
    | _ => simp at hsent
  rcases hlist : numbers fx with - | ⟨k, - | ⟨k', rest⟩⟩
  · exact Nat.zero_le _
  · exact Nat.le_refl _
  · rw [hlist] at hascending hnext
    have hlt := (List.pairwise_cons.mp hascending).1 k' List.mem_cons_self
    rw [hnext k List.mem_cons_self, hnext k' (by simp)] at hlt
    exact absurd hlt (Int.lt_irrefl _)

/-! ## Runs -/

/-- A move keeps the links, where what is open and what it opens is of
different files. -/
theorem linked_perform {m : Move} (hd : DistinctFiles (r.uris ++ openedUris [m]))
    (hsound : r.Sound) (h : Linked r.uris r) : Linked (m.perform r).1.uris (m.perform r).1 := by
  suffices h : Linked (r.uris ++ openedUris [m]) (m.perform r).1 from
    { h with known := fun u s hs => mem_uris_iff.mpr ⟨s, hs⟩ }
  have hwide := h.mono fun u => List.mem_append_left (openedUris [m])
  cases hnews : m.news? with
  | none =>
    exact (Steps.keep (P := fun r' => r'.Sound ∧ Linked (r.uris ++ openedUris [m]) r')
      (fun _ _ hstep h => ⟨sound_step hstep h.1, linked_step hd hstep h.1 h.2⟩)
      (steps_perform hnews (fun u => List.mem_append_right r.uris)
        fun u s hs => (hsound.filed u s hs).1)
      ⟨hsound, hwide⟩).2
  | some note =>
    exact (linked_heard (heard_hear note r) hsound hwide).quiet (perform_of_news hnews r).1

/-- **Files lead to their documents all along a run**, as long as documents open
at the same time are of different files. -/
theorem linked_along (hfiles : ApartAlong setup moves) :
    Linked (run moves (Relay.new setup)).uris (run moves (Relay.new setup)) := by
  induction moves using List.reverseRecOn with
  | nil => exact linked_new _ setup
  | append_singleton moves m ih =>
    have hsound := sound_run setup moves
    have hlast := hfiles.last
    rw [run_snoc] at hlast ⊢
    exact linked_perform (distinctFiles_move hsound hfiles.of_append.last hlast) hsound
      (ih hfiles.of_append)

/-- **Every event keeps to its document**, after any run over documents of
different files: it concerns one open document at most, changes no other
record, and publishes, writes and releases for that document alone; one
command is written at most. Before the event and after it the file table
leads back to every record, and no check is in flight for two documents. -/
theorem events_keep_apart (setup : Setup) (moves : List Move) (hfiles : ApartAlong setup moves)
    (event : Service.Event) :
    let r := run moves (Relay.new setup)
    let r' := (r.handleEvent event).1
    (∀ u v, Concerns r event u → Concerns r event v → u = v) ∧
    (∀ u, ¬ Concerns r event u → r'.check? u = r.check? u) ∧
    (∃ fx, r'.outbox = r.outbox ++ fx ∧ (∀ x ∈ fx, Within r event x) ∧
      (numbers fx).length ≤ 1) ∧
    r.Consistent ∧ r'.Consistent := by
  intro r r'
  have hsound : r.Sound := sound_run setup moves
  have htraced : r.Traced := traced_run setup moves
  have hlinked : Linked r.uris r := linked_along hfiles
  refine ⟨fun u v hu hv => hu.unique hv hfiles.last htraced, ?_⟩
  cases hnews : newsOf? event with
  | none =>
    have hsame : r' = r := by simp only [r', handleEvent_eq, hnews, Option.elim_none]
    rw [hsame]
    exact ⟨fun _ _ => rfl, ⟨[], by simp, by simp, by simp [numbers]⟩,
      hlinked.consistent htraced, hlinked.consistent htraced⟩
  | some note =>
    have hheard : Heard r note r' (r.hear note).2 := by
      simp only [r', handleEvent_eq, hnews, Option.elim_some]
      exact heard_hear note r
    have hbefore := hlinked.consistent htraced
    have hafter := (linked_heard hheard hsound hlinked).consistent
      (traced_heard hheard hsound htraced)
    obtain ⟨fy, hfy, hascending, -⟩ := (numbersOn_heard hheard).written
    rcases confined_heard hheard hnews hsound hlinked with
      ⟨hchecks, houtbox⟩ | ⟨u, hu, hconfined⟩
    · exact ⟨fun v _ => by rw [check?, hchecks, check?],
        ⟨[], by simp [houtbox], by simp, by simp [numbers]⟩, hbefore, hafter⟩
    · obtain ⟨fx, hfx, hwithin⟩ := hconfined.adds
      obtain rfl := List.append_cancel_left (hfx.symm.trans hfy)
      refine ⟨fun v hv => hconfined.others v ?_, ⟨fx, hfx, hwithin,
        length_numbers_le_one hwithin hascending⟩, hbefore, hafter⟩
      rintro rfl
      exact hv hu

/-- Both of two open documents have a check in flight. -/
def bothAsked : List Move :=
  twoOpen ++ [.requestCheck "file:///a.ts" 7, .requestCheck "file:///b.ts" 8]

/-- The check of the first is complete. -/
def firstOver : Service.Event := ⟨0, "requestCompleted", .obj [("request_seq", .int 3)]⟩

/-- Its completion asks again for the first document, and leaves the check of
the second in flight. -/
theorem events_keep_apart_bothAsked :
    ApartAlong syntaxOnly bothAsked ∧
    (∃ e, ((run bothAsked (Relay.new syntaxOnly)).check? "file:///b.ts").map
      CheckState.inFlight = some [e]) ∧
    ((run bothAsked (Relay.new syntaxOnly)).handleEvent firstOver).1.check? "file:///a.ts" ≠
      (run bothAsked (Relay.new syntaxOnly)).check? "file:///a.ts" ∧
    ((run bothAsked (Relay.new syntaxOnly)).handleEvent firstOver).1.check? "file:///b.ts" =
      (run bothAsked (Relay.new syntaxOnly)).check? "file:///b.ts" := by
  have hfiles : ApartAlong syntaxOnly bothAsked := by
    refine apartAlong_of_distinctFiles fun u hu v hv file hfile hfile' => ?_
    have hopened : ∀ w ∈ openedUris bothAsked, w = "file:///a.ts" ∨ w = "file:///b.ts" := by
      simp [openedUris, bothAsked, twoOpen]
    have ha : Uri.fileOf? "file:///a.ts" = some "/a.ts" := by decide +kernel
    have hb : Uri.fileOf? "file:///b.ts" = some "/b.ts" := by decide +kernel
    rcases hopened u hu with rfl | rfl <;> rcases hopened v hv with rfl | rfl <;> simp_all
  obtain ⟨hone, hothers, -⟩ := events_keep_apart syntaxOnly bothAsked hfiles firstOver
  have hfirst : Concerns (run bothAsked (Relay.new syntaxOnly)) firstOver "file:///a.ts" :=
    .completed rfl rfl List.mem_cons_self rfl
  refine ⟨hfiles, ⟨_, rfl⟩, fun hsame => ?_, hothers _ fun hsecond => ?_⟩
  · have hcount := congrArg (fun c => c.elim 0 CheckState.retries) hsame
    exact absurd hcount (by decide)
  · exact absurd (hone _ _ hfirst hsecond) (by decide)

end Relay

end LanguageRelay
