import LanguageRelay.Proofs.Checks.Flight
import LanguageRelay.Proofs.Checks.Settlement
/-!
# Calls that wait can be settled

Whatever happens to a relay, its records of checks are *regular*
(`checks_regular`): they are of open documents, the checks in flight are in
order, and while parts are awaited, the newest check is the one they are
awaited from.

So no call waits in vain. The newest check is pursued until the generation
ends: each time it completes, either the missing parts are asked for again,
which happens a limited number of times, or what there is gets settled and
no call waits any more (`SettlesIn`).

What happens to a relay may be that its transport comes to refuse commands, while
messages are still delivered (`Happening`). Then a check that is to be asked for
again is not written, none is in flight any more, and calls wait for what no check
will report (`check_is_lost`), until they are told that the connection closed.
-/

namespace LanguageRelay

/-- **A regular record of checks**, for the categories that make up the
diagnostics, unless the check parts are awaited from is `lost`. -/
structure CheckState.Regular (lost : Prop) (categories : List String) (c : CheckState) : Prop where
  /-- The checks in flight are in the order of their numbers, and of their
  generations. -/
  ascending : c.inFlight.Pairwise fun e e' => e.seq < e'.seq ∧ e.generation < e'.generation
  /-- No check is of a generation to come. -/
  past : ∀ e ∈ c.inFlight, e.generation ≤ c.generation
  /-- While parts are awaited, the newest check is of the current generation,
  and it has not reported them; where that is lost, none is in flight. -/
  newest : c.outstanding ≠ [] → (∃ e, c.inFlight.getLast? = some e ∧
    e.generation = c.generation ∧ ∀ k ∈ e.reported, k ∉ c.outstanding) ∨ lost ∧ c.inFlight = []
  /-- Then each category is awaited or there, and none is both. -/
  parts : c.outstanding ≠ [] → (c.outstanding ++ Table.keys c.merged).Perm categories
  /-- Calls wait only while parts are awaited. -/
  awaited : c.waiters ≠ [] → c.outstanding ≠ []
  patient : c.retries ≤ Relay.maxRetries

/-- Categories that are set up once each stay as they are. -/
theorem eraseDups_of_nodup {l : List String} (h : l.Nodup) : l.eraseDups = l := by
  induction l with
  | nil => rfl
  | cons a rest ih =>
    obtain ⟨hnew, hrest⟩ := List.nodup_cons.mp h
    have hfilter : (rest.filter fun b => !b == a) = rest :=
      List.filter_eq_self.mpr fun b hb => by
        have hne : b ≠ a := fun heq => hnew (heq ▸ hb)
        simpa using hne
    rw [List.eraseDups_cons, hfilter, ih hrest]

theorem CheckState.Kept.regular {lost lost' : Prop} {categories : List String} {last : Nat}
    {c : CheckState} (h : c.Kept lost categories last)
    (hlost : c.outstanding ≠ [] → lost → lost') (hcategories : categories ≠ [])
    (hnodup : categories.Nodup) : c.Regular lost' categories where
  ascending := h.ascending
  past e he := (h.bounded e he).2
  newest hout := (h.newest hout).imp_right (And.imp_left (hlost hout))
  parts hout := eraseDups_of_nodup hnodup ▸ h.parts hout
  awaited := h.awaited hcategories
  patient := h.patient

namespace Relay

variable {r r' : Relay} {uri : String} {c : CheckState} {e : InFlight}

/-! ## What becomes of the calls that wait -/

/-- **The check is pursued for a document**: it was written about its file, it
is the newest in flight and of the current generation, it can still report all
that is awaited, and the connection is up. -/
structure Pursued (uri : String) (c : CheckState) (e : InFlight) (r : Relay) : Prop where
  check : r.check? uri = some c
  newest : c.inFlight.getLast? = some e
  current : e.generation = c.generation
  sent : ((e.seq : Int), c.file) ∈ written r.outbox
  awaited : c.outstanding ≠ []
  unreported : ∀ k ∈ c.outstanding, k ∉ e.reported
  up : r.link.closed = none

/-- **The generation is concluded**: no call waits any more. -/
structure Concluded (uri : String) (c : CheckState) (r : Relay)
    (ended : Relay × Option Failure) : Prop where
  released : ∃ c', ended.1.check? uri = some c' ∧ c'.waiters = []
  /-- Where every entry collected converts or is skipped, what converts is
  published and all calls are released. -/
  clean : (∀ entry ∈ mergedEntries r.setup.categories c.merged, Diagnostic.Settleable entry) →
    CleanEnd uri (mergedEntries r.setup.categories c.merged) c.waiters r ended
  /-- Where one fails otherwise, they are stranded. -/
  stranded : (¬ ∀ entry ∈ mergedEntries r.setup.categories c.merged,
    Diagnostic.Settleable entry) → StrandedEnd uri r ended

/-- **The calls that wait for a document are settled within `n` completions**:
one check is pursued, and when it completes, the generation is concluded or
the same calls are settled within one completion less. -/
def SettlesIn (uri : String) (waiters : List Waiter) : Nat → Relay → Prop
  | 0, _ => False
  | n + 1, r => ∃ c e, Pursued uri c e r ∧ c.waiters = waiters ∧
    ∀ event, newsOf? event = some (.completed e.seq) →
      Concluded uri c r (r.handleEvent event) ∨ SettlesIn uri waiters n (r.handleEvent event).1

/-- While parts are awaited, a check is pursued. -/
theorem exists_pursued (hsound : r.Sound) (htraced : r.Traced) (hcheck : r.check? uri = some c)
    (hout : c.outstanding ≠ []) : ∃ e, Pursued uri c e r := by
  obtain ⟨e, hnewest, hcurrent, hreported⟩ := (hsound.states uri c hcheck).current hout
  exact ⟨e, hcheck, hnewest, hcurrent,
    htraced.sent uri c hcheck e (List.mem_of_getLast? hnewest), hout,
    fun k hk hmem => hreported k hmem hk, hsound.up hcheck hout⟩

/-- A generation is concluded by settling it, when at most log lines were
written before. -/
theorem concluded_of_settle (r₀ : Relay) (d : CheckState) (notes : List Effect)
    (hopen : ∃ s, r.session? uri = some s) (hsessions : r₀.sessions = r.sessions)
    (hsetup : r₀.setup = r.setup) (hnotes : r₀.outbox = r.outbox ++ notes)
    (hlogs : ∀ e ∈ notes, e.IsLog) (hwaiters : d.waiters = c.waiters) (hmerged : d.merged = c.merged) :
    Concluded uri c r (r₀.settle uri d) := by
  obtain ⟨s, hs⟩ := hopen
  have hs₀ : r₀.session? uri = some s := by rwa [session?, hsessions]
  have hskips : ∀ faults : List ProtocolFault, ∀ e ∈ notes ++ faults.map (skipLine uri),
      e.IsLog := by
    intro faults e he
    rcases List.mem_append.mp he with he | he
    · exact hlogs e he
    · obtain ⟨fault, -, rfl⟩ := List.mem_map.mp he
      trivial
  refine ⟨?_, fun hall => ?_, fun hnot => ?_⟩
  · obtain ⟨fresh, fx, hshape, -⟩ := settle_shape uri d r₀
    rw [hshape]
    exact ⟨{ d.ended with fresh }, by simp [check?, Table.get?_put], rfl⟩
  · obtain ⟨faults, hof⟩ := Diagnostic.ofEntries_of_settleable hall
    rw [← hmerged, ← hsetup] at hof
    rw [settle_of_ok hs₀ hof]
    exact ⟨rfl, s, _, hs, hskips faults, by simp [hnotes, hwaiters, hmerged, hsetup]⟩
  · obtain ⟨faults, failure, hof⟩ := Diagnostic.ofEntries_of_not_settleable hnot
    rw [← hmerged, ← hsetup] at hof
    rw [settle_of_error hs₀ hof]
    exact ⟨by simp, ⟨_, by simp [hnotes], hskips faults⟩, d.ended,
      by simp [check?, Table.get?_put], rfl⟩

/-- **When the pursued check completes**, the generation is concluded, or its
parts are asked for once more and the same calls wait. -/
theorem Pursued.complete (h : Pursued uri c e r) (hsound : r.Sound) (htraced : r.Traced)
    {failure : Option Failure} (hheard : Heard r (.completed e.seq) r' failure) :
    Concluded uri c r (r', failure) ∨ ∃ c', r'.check? uri = some c' ∧ c'.waiters = c.waiters ∧
      c'.retries = c.retries + 1 ∧ c.retries < maxRetries := by
  have hfound := htraced.find hsound h.check (List.mem_of_getLast? h.newest)
  cases hheard with
  | retired hfind => simp [hfound] at hfind
  | overtaken hfind hold =>
    cases hfound.symm.trans hfind
    exact absurd h.current (hold.resolve_right h.awaited)
  | @repeated _ u d f text hfind hcurrent hawaited hpatient hup =>
    cases hfound.symm.trans hfind
    exact .inr ⟨(c.again e.seq).asked r.setup.categories r.nextSeq, by simp, rfl, rfl, hpatient⟩
  | severed hfind hcurrent hawaited hpatient hrefused =>
    simp [hsound.taken h.check h.awaited] at hrefused
  | @exhausted _ u d f text hfind hcurrent hawaited hpatient =>
    cases hfound.symm.trans hfind
    obtain ⟨s, hs, -⟩ := hsound.opened uri c h.check
    exact .inl (concluded_of_settle ((r.retireAbandoned e.seq).log .warning text)
      (c.exhausted e.seq) [.logged .warning text] ⟨s, hs⟩ rfl rfl rfl (by simp [Effect.IsLog])
      rfl rfl)

/-- **Calls that wait are settled** by as many completions as there are
retries left, and one. -/
theorem settlesIn_of_waiting {n : Nat} (hsound : r.Sound) (htraced : r.Traced)
    (hcategories : r.setup.categories ≠ []) (hcheck : r.check? uri = some c)
    (hwaiting : c.waiters ≠ []) (hleft : n + c.retries = maxRetries + 1) :
    SettlesIn uri c.waiters n r := by
  have hstate := hsound.states uri c hcheck
  -- each completion that settles nothing uses up a retry, and retries are limited
  induction n generalizing r c with
  | zero =>
    have hpatient := hstate.patient
    omega
  | succ n ih =>
    obtain ⟨e, hpursued⟩ :=
      exists_pursued hsound htraced hcheck (hstate.awaited hcategories hwaiting)
    refine ⟨c, e, hpursued, rfl, fun event hnews => ?_⟩
    have heq : r.handleEvent event = r.hear (.completed e.seq) := by
      rw [handleEvent_eq, hnews]
      rfl
    rw [heq]
    have hheard := heard_hear (.completed e.seq) r
    rcases hpursued.complete hsound htraced hheard with hend | ⟨c', hc', hwaiters, hretries, -⟩
    · exact .inl hend
    · have hsound' := sound_heard hheard hsound
      refine .inr (hwaiters ▸ ih hsound' (traced_heard hheard hsound htraced) ?_ hc' ?_ ?_
        (hsound'.states uri c' hc'))
      · rwa [setup_heard hheard]
      · rwa [hwaiters]
      · omega

/-! ## A transport that comes to refuse commands -/

/-- What can happen to a relay over a transport that may come to refuse commands. -/
inductive Happening where
  | move (m : Move)
  /-- The transport takes some more commands and then none. The closing of the
  connection is told later, if at all, and messages come in meanwhile. -/
  | limited (room : Nat) (cause : Closure)

/-- What comes of it. -/
def Happening.occur (h : Happening) (r : Relay) : Relay :=
  match h with
  | move m => (m.perform r).1
  | limited room cause => r.limit room cause

/-- One happening after another. -/
def course (happenings : List Happening) (r : Relay) : Relay :=
  happenings.foldl (fun r h => h.occur r) r

/-- **The transport fails the relay**: the next command is refused, although the
connection is not said to have closed. -/
def Failing (r : Relay) : Prop := r.link.closed = none ∧ r.link.refusal? ≠ none

/-- A transport that is about to refuse commands changes no record. What was refused
still is. -/
theorem Kept.limit (h : r.Kept) (room : Nat) (cause : Closure) : (r.limit room cause).Kept where
  single := h.single
  filed := h.filed
  opened := h.opened
  records uri c hcheck := (h.records uri c hcheck).weaken (Link.refuses_limited room cause)
  silent := h.silent

/-- **What holds along every course**: records are kept, and where nothing limits what
the transport takes, checks in flight were written about the files of their documents. -/
structure Holds (setup : Setup) (r : Relay) : Prop where
  kept : r.Kept
  setup : r.setup = setup
  traced : r.link.limit = none → r.Traced

/-- Where nothing limits what the transport takes, the relay is sound. -/
theorem Holds.sound {setup : Setup} (h : Holds setup r) (hunlimited : r.link.limit = none) :
    r.Sound :=
  ⟨h.kept, hunlimited⟩

theorem holds_occur {setup : Setup} (happening : Happening) (h : Holds setup r) :
    Holds setup (happening.occur r) := by
  cases happening with
  | move m =>
    refine ⟨kept_perform m h.kept, (setup_perform m h.kept).trans h.setup, fun hunlimited => ?_⟩
    have hbefore : r.link.limit = none := (limit_perform m h.kept).symm.trans hunlimited
    exact traced_perform m (h.sound hbefore) (h.traced hbefore)
  | limited room cause =>
    refine ⟨h.kept.limit room cause, h.setup, fun hunlimited => ?_⟩
    simp [Happening.occur, Relay.limit] at hunlimited

theorem holds_course (setup : Setup) (happenings : List Happening) :
    Holds setup (course happenings (Relay.new setup)) := by
  have hall : ∀ (happenings : List Happening) (r : Relay), Holds setup r →
      Holds setup (course happenings r) := by
    intro happenings
    induction happenings with
    | nil => exact fun _ h => h
    | cons happening rest ih => exact fun r h => ih _ (holds_occur happening h)
  exact hall happenings _ ⟨kept_new setup, rfl, fun _ => traced_new setup⟩

/-- **The closing of the connection tells every call** that waits and was not given
up. -/
theorem released_by_disconnect (hup : r.link.closed = none) (hmem : (uri, c) ∈ r.checks)
    (cause : Closure) {w : Waiter} (hw : w ∈ c.waiters) (hopen : w.settled = false) :
    .released w.id (.error (.closed cause)) ∈ (r.disconnect cause).outbox := by
  have hreleased : Effect.released w.id (.error (.closed cause)) ∈
      releases (.error (.closed cause)) (r.checks.flatMap fun e => e.2.waiters) := by
    refine List.mem_map.mpr ⟨w, List.mem_filter.mpr ⟨?_, by simp [hopen]⟩, rfl⟩
    exact List.mem_flatMap.mpr ⟨(uri, c), hmem, hw⟩
  rw [disconnect_of_open hup]
  simp [hreleased]

/-! ## Courses -/

/-- **Records of checks are regular, and calls that wait can be settled**,
after any course over categories that are set up once each. Documents may share
files, and the analysis server may say anything in any order. A check may be lost
to a failing transport alone, and then the calls that wait are told of the closing. -/
theorem checks_regular (setup : Setup) (hcategories : setup.categories ≠ [])
    (hnodup : setup.categories.Nodup) (happenings : List Happening) (uri : String) (c : CheckState)
    (hmem : (uri, c) ∈ (course happenings (Relay.new setup)).checks) :
    (∃ s, (course happenings (Relay.new setup)).session? uri = some s) ∧
      c.Regular (course happenings (Relay.new setup)).Failing setup.categories ∧
      ((course happenings (Relay.new setup)).link.closed ≠ none →
        c.outstanding = [] ∧ c.waiters = []) ∧
      ((course happenings (Relay.new setup)).link.closed = none → ∀ cause, ∀ w ∈ c.waiters,
        w.settled = false → .released w.id (.error (.closed cause)) ∈
          ((course happenings (Relay.new setup)).disconnect cause).outbox) ∧
      (c.waiters ≠ [] → (course happenings (Relay.new setup)).link.limit = none →
        SettlesIn uri c.waiters (maxRetries + 1 - c.retries)
          (course happenings (Relay.new setup))) := by
  have h := holds_course setup happenings
  generalize course happenings (Relay.new setup) = r at h hmem ⊢
  have hcheck := (Table.get?_eq_some_iff h.kept.single).mpr hmem
  have hrecord := h.kept.records uri c hcheck
  rw [h.setup] at hrecord
  have hregular : c.Regular r.Failing setup.categories :=
    hrecord.regular (fun hout hrefused => ⟨h.kept.up hcheck hout, hrefused⟩) hcategories hnodup
  obtain ⟨s, hs, -⟩ := h.kept.opened uri c hcheck
  refine ⟨⟨s, hs⟩, hregular, fun hclosed => ?_,
    fun hup cause w hw hopen => released_by_disconnect hup hmem cause hw hopen,
    fun hwaiting hunlimited => ?_⟩
  · have hout := h.kept.silent hclosed uri c hcheck
    exact ⟨hout, not_not.mp fun hwaiting => hregular.awaited hwaiting hout⟩
  · have hpatient := hrecord.patient
    exact settlesIn_of_waiting (h.sound hunlimited) (h.traced hunlimited) (by rwa [h.setup]) hcheck
      hwaiting (by omega)

/-- A call asks for diagnostics, the transport fails, and the check completes without
its part: it is asked for again in vain. -/
def askedInVain : List Happening :=
  [.move (.openDocument "file:///a.ts" "typescript" 1 "x"), .move (.requestCheck "file:///a.ts" 7),
    .limited 0 .inputClosed,
    .move (.receive (.obj
      (Service.Event.toFields ⟨0, "requestCompleted", .obj [("request_seq", .int 2)]⟩)))]

/-- **A check is lost** to a failing transport: a call waits and a part is awaited, but no
check is in flight that could report it, and the connection is not said to have
closed. -/
theorem check_is_lost :
    ∃ c, ("file:///a.ts", c) ∈ (course askedInVain (Relay.new syntaxOnly)).checks ∧
      c.waiters = [⟨7, false⟩] ∧ c.outstanding = ["syntax"] ∧ c.inFlight = [] ∧
      (course askedInVain (Relay.new syntaxOnly)).link.closed = none :=
  ⟨_, List.mem_singleton_self _, rfl, rfl, rfl, rfl⟩

/-- A setup that asks for two categories. -/
def twoCategories : Setup := { syntaxOnly with categories := ["syntax", "semantic"] }

/-- The check a call asked for reports one category and completes, so that it
is asked again; then another call asks. -/
def askedAgain : List Happening :=
  [.move (.openDocument "file:///a.ts" "typescript" 1 "x"), .move (.requestCheck "file:///a.ts" 7),
    .move (.receive (.obj (syntaxPart [.int 5]).toFields)),
    .move (.receive (.obj
      (Service.Event.toFields ⟨0, "requestCompleted", .obj [("request_seq", .int 2)]⟩))),
    .move (.requestCheck "file:///a.ts" 8)]

/-- The record of its document then. -/
def askedAgainState : CheckState :=
  { file := "/a.ts", generation := 2, outstanding := ["syntax", "semantic"], merged := []
    inFlight := [⟨3, 2, []⟩], waiters := [⟨7, false⟩, ⟨8, false⟩], fresh := false, retries := 1 }

/-- Both calls are settled within two completions. -/
theorem checks_regular_askedAgain :
    twoCategories.categories ≠ [] ∧ twoCategories.categories.Nodup ∧
    ("file:///a.ts", askedAgainState) ∈ (course askedAgain (Relay.new twoCategories)).checks ∧
    (∃ e, askedAgainState.inFlight.getLast? = some e ∧ e.generation = askedAgainState.generation) ∧
    SettlesIn "file:///a.ts" [⟨7, false⟩, ⟨8, false⟩] 2
      (course askedAgain (Relay.new twoCategories)) := by
  have hmem : ("file:///a.ts", askedAgainState) ∈
      (course askedAgain (Relay.new twoCategories)).checks :=
    List.mem_singleton_self _
  obtain ⟨-, hregular, -, -, hsettles⟩ :=
    checks_regular twoCategories (by decide) (by decide) askedAgain _ _ hmem
  obtain ⟨e, hlast, hcurrent, -⟩ :=
    (hregular.newest (by decide)).resolve_right fun hlost => by simp [askedAgainState] at hlost
  exact ⟨by decide, by decide, hmem, ⟨e, hlast, hcurrent⟩,
    hsettles (by simp [askedAgainState]) rfl⟩

end Relay

end LanguageRelay
