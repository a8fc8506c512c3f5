import LanguageRelay.Proofs.Checks.Freshness
/-!
# Whose checks are written

Two documents may be of one file, so the file a check names does not tell on
whose behalf it was written. Its number does: the check is in flight in the
record of one document. `checksFor` are the checks a move wrote for a document,
and no other check is left over: whatever a move writes or publishes is
accounted for by the record of some document (`accounted_perform`).
-/

namespace LanguageRelay

namespace Relay

variable {uris : List String} {r r' r'' : Relay} {uri : String} {c : CheckState}

/-! ## What was done for a document -/

/-- What was done between two states of a run. -/
def since (r r' : Relay) : List Effect := r'.outbox.drop r.outbox.length

theorem since_eq {fx : List Effect} (h : r'.outbox = r.outbox ++ fx) : since r r' = fx := by
  simp [since, h]

/-- What was done in two stretches was done in the first and in the second. -/
theorem since_trans (h : NumbersOn r r') (h' : NumbersOn r' r'') :
    since r r'' = since r r' ++ since r' r'' := by
  obtain ⟨fx, hfx, -⟩ := h.written
  obtain ⟨fy, hfy, -⟩ := h'.written
  rw [since_eq hfx, since_eq hfy, since_eq (by rw [hfy, hfx, List.append_assoc])]

/-- The numbers of the checks in flight for a document. -/
def inFlightOf (uri : String) (r : Relay) : List Int :=
  (r.check? uri).elim [] fun c => c.inFlight.map fun e => (e.seq : Int)

/-- The effect as a check that was written, if its number is among `numbers`. -/
def checkAmong? (numbers : List Int) : Effect → Option Service.Command
  | .sent c => if c.name = Service.errorCheckName ∧ c.seq ∈ numbers then some c else none
  | _ => none

/-- **The checks written for a document** between two states: they are in
flight in its record. -/
def checksFor (uri : String) (r r' : Relay) : List Service.Command :=
  (since r r').filterMap (checkAmong? (inFlightOf uri r'))

/-- The effect as a notification of a document's diagnostics. -/
def notificationOf? (uri : String) : Effect → Option (List Diagnostic × Option Int)
  | .published u diagnostics version => if u = uri then some (diagnostics, version) else none
  | _ => none

/-- The notifications of a document's diagnostics in a history. -/
def notifications (uri : String) (history : List Effect) :
    List (List Diagnostic × Option Int) :=
  history.filterMap (notificationOf? uri)

theorem notifications_append (uri : String) (history fx : List Effect) :
    notifications uri (history ++ fx) = notifications uri history ++ notifications uri fx :=
  List.filterMap_append ..

/-- The numbers in flight are those of the document's record. -/
theorem inFlightOf_eq (hcheck : r.check? uri = some c) :
    inFlightOf uri r = c.inFlight.map fun e => (e.seq : Int) := by
  rw [inFlightOf, hcheck]
  rfl

theorem mem_inFlightOf {k : Int} : k ∈ inFlightOf uri r ↔
    ∃ c, r.check? uri = some c ∧ ∃ e ∈ c.inFlight, (e.seq : Int) = k := by
  rw [inFlightOf]
  cases r.check? uri <;> simp

/-- What counts as written for a document. -/
theorem mem_checksFor {command : Service.Command} : command ∈ checksFor uri r r' ↔
    .sent command ∈ since r r' ∧ command.name = Service.errorCheckName ∧
      command.seq ∈ inFlightOf uri r' := by
  rw [checksFor, List.mem_filterMap]
  constructor
  · rintro ⟨x, hx, heq⟩
    cases x with
    | sent c =>
      obtain ⟨hc, hsame⟩ := Option.ite_none_right_eq_some.mp heq
      cases hsame
      exact ⟨hx, hc⟩
    | _ => cases heq
  · rintro ⟨hsent, hc⟩
    exact ⟨_, hsent, if_pos hc⟩

/-- The numbers in flight were given out. -/
theorem Sound.inFlightOf_le (h : r.Sound) (uri : String) : ∀ k ∈ inFlightOf uri r,
    k ≤ r.link.last := by
  intro k hk
  cases hcheck : r.check? uri with
  | none => simp [inFlightOf, hcheck] at hk
  | some c =>
    rw [inFlightOf_eq hcheck] at hk
    obtain ⟨e, he, rfl⟩ := List.mem_map.mp hk
    exact Int.ofNat_le.mpr ((h.states uri c hcheck).bounded e he).1

/-- No notification was of the document. -/
theorem notifications_of_adds (h : Adds (fun x => ¬ PublishesOf uri x) r r') :
    notifications uri (since r r') = [] := by
  obtain ⟨fx, hfx, hnone⟩ := h
  rw [since_eq hfx]
  refine List.filterMap_eq_nil_iff.mpr fun x hx => ?_
  cases x with
  | published u diagnostics version =>
    refine if_neg fun hu => hnone _ hx ?_
    exact ⟨diagnostics, version, by rw [hu]⟩
  | _ => rfl

/-- Where no check in flight has a later number, none was written. -/
theorem checksFor_of_le (hnumbers : NumbersOn r r')
    (h : ∀ k ∈ inFlightOf uri r', k ≤ r.link.last) : checksFor uri r r' = [] := by
  obtain ⟨fx, hfx, -, hlater⟩ := hnumbers.written
  rw [checksFor, since_eq hfx]
  refine List.filterMap_eq_nil_iff.mpr fun x hx => ?_
  cases x with
  | sent c =>
    refine if_neg fun hc => ?_
    have hlt := (hlater c.seq (List.mem_filterMap.mpr ⟨_, hx, rfl⟩)).1
    have hle := h c.seq hc.2
    omega
  | _ => rfl

/-- What is quiet adds no check to a stretch. -/
theorem checksFor_quiet (uri : String) (hnumbers : NumbersOn r r') (hq : Quiet r' r'') :
    checksFor uri r r'' = checksFor uri r r' := by
  obtain ⟨fy, hfy, hnone⟩ := hq.adds
  have hinFlight : inFlightOf uri r'' = inFlightOf uri r' := by
    rw [inFlightOf, hq.check?, inFlightOf]
  have hchecks : fy.filterMap (checkAmong? (inFlightOf uri r')) = [] := by
    refine List.filterMap_eq_nil_iff.mpr fun x hx => ?_
    cases x with
    | sent command => exact if_neg fun hc => hnone _ hx hc.1
    | _ => rfl
  rw [checksFor, since_trans hnumbers hq.numbers, since_eq hfy, hinFlight, List.filterMap_append,
    hchecks, List.append_nil, checksFor]

/-- Nor a notification. -/
theorem notifications_quiet (uri : String) (hnumbers : NumbersOn r r') (hq : Quiet r' r'') :
    notifications uri (since r r'') = notifications uri (since r r') := by
  have hnone : notifications uri (since r' r'') = [] :=
    notifications_of_adds (hq.adds.mono fun x hx => by
      rintro ⟨diagnostics, version, rfl⟩
      exact hx trivial)
  rw [since_trans hnumbers hq.numbers, notifications_append, hnone, List.append_nil]

/-- One command and nothing else of checks is at most one check. -/
theorem length_checksFor_le_one {notes : List Effect} {command : Service.Command}
    (houtbox : r'.outbox = r.outbox ++ (notes ++ [.sent command]))
    (hnotes : ∀ x ∈ notes, x.IsLog) : (checksFor uri r r').length ≤ 1 := by
  rw [checksFor, since_eq houtbox, List.filterMap_append, List.length_append,
    List.filterMap_eq_nil_iff.mpr fun x hx => ?_]
  · rw [List.length_nil, Nat.zero_add]
    exact List.length_filterMap_le _ [Effect.sent command]
  · have hlog := hnotes x hx
    cases x with
    | logged => rfl
    | _ => exact hlog.elim

/-! ## Nothing is left over -/

/-- **The effect is accounted for** by the records of checks: a check that was
written is in flight for a document and asks about its file, and what was published
is of a document with a record. -/
def Accounted (r : Relay) : Effect → Prop
  | .sent c => c.name = Service.errorCheckName → ∃ uri d, r.check? uri = some d ∧
    c.seq ∈ inFlightOf uri r ∧ c.arguments = checkArguments d.file
  | .published uri _ _ => r.check? uri ≠ none
  | _ => True

theorem accounted_of_not_ofChecks {e : Effect} (h : ¬ e.OfChecks) : Accounted r e := by
  cases e with
  | sent c => exact fun hname => absurd hname h
  | published => exact absurd trivial h
  | _ => exact trivial

theorem accounted_of_silent {e : Effect} (h : e.Silent) : Accounted r e := by
  cases e with
  | sent c => exact absurd rfl (h.1 c)
  | published => exact absurd trivial h.2
  | _ => exact trivial

/-- **What is in flight for documents stays in flight**, and for the same files. -/
def Retains (r r' : Relay) : Prop :=
  ∀ uri c, r.check? uri = some c →
    ∃ c', r'.check? uri = some c' ∧ c'.file = c.file ∧ ∀ e ∈ c.inFlight, e ∈ c'.inFlight

theorem Retains.refl (r : Relay) : Retains r r :=
  fun _ c hcheck => ⟨c, hcheck, rfl, fun _ he => he⟩

theorem Retains.trans (h : Retains r r') (h' : Retains r' r'') : Retains r r'' := by
  intro uri c hcheck
  obtain ⟨c', hcheck', hfile, hsub⟩ := h uri c hcheck
  obtain ⟨c'', hcheck'', hfile', hsub'⟩ := h' uri c' hcheck'
  exact ⟨c'', hcheck'', hfile'.trans hfile, fun e he => hsub' e (hsub e he)⟩

theorem retains_of_checks (h : r'.checks = r.checks) : Retains r r' := fun uri c hcheck =>
  ⟨c, by rwa [check?, h, ← check?], rfl, fun _ he => he⟩

theorem retains_mapChecks {f : CheckState → CheckState}
    (hf : ∀ c, (f c).inFlight = c.inFlight ∧ (f c).file = c.file) (r : Relay) :
    Retains r (r.mapChecks f) := by
  intro uri c hcheck
  refine ⟨f c, by rw [check?_mapChecks, hcheck, Option.map_some], (hf c).2, fun e he => ?_⟩
  rwa [(hf c).1]

/-- A record accounts for what it did, as long as what is in flight stays. -/
theorem Accounted.retains {e : Effect} (h : Accounted r e) (hc : Retains r r') :
    Accounted r' e := by
  cases e with
  | sent command =>
    intro hname
    obtain ⟨uri, c, hcheck, hmem, hfile⟩ := h hname
    obtain ⟨c', hcheck', hsame, hsub⟩ := hc uri c hcheck
    refine ⟨uri, c', hcheck', ?_, hsame ▸ hfile⟩
    rw [inFlightOf_eq hcheck] at hmem
    obtain ⟨e, he, heq⟩ := List.mem_map.mp hmem
    rw [inFlightOf_eq hcheck']
    exact List.mem_map.mpr ⟨e, hsub e he, heq⟩
  | published uri =>
    obtain ⟨c, hcheck⟩ := Option.ne_none_iff_exists'.mp h
    obtain ⟨c', hcheck', -⟩ := hc uri c hcheck
    exact Option.ne_none_iff_exists'.mpr ⟨c', hcheck'⟩
  | _ => exact trivial

theorem Adds.accounted_retains (h : Adds (Accounted r') r r') (hc : Retains r' r'') :
    Adds (Accounted r'') r r' :=
  h.mono fun _ he => he.retains hc

theorem Adds.accounted_quiet (h : Adds (Accounted r') r r') (hq : Quiet r' r'') :
    Adds (Accounted r'') r r'' :=
  (h.accounted_retains (retains_of_checks hq.checks)).trans
    (hq.adds.mono fun _ => accounted_of_not_ofChecks)

/-- A check that was written for a document is in flight for it. -/
theorem accounted_asked (uri : String) (c : CheckState) {seq : Nat} {categories : List String}
    {command : Service.Command}
    (hcheck : ∃ waiters, r.check? uri = some { c.asked categories seq with waiters })
    (hseq : command.seq = (seq : Int)) (hfile : command.arguments = checkArguments c.file) :
    Accounted r (.sent command) := by
  obtain ⟨waiters, hcheck⟩ := hcheck
  refine fun _ => ⟨uri, _, hcheck, ?_, hfile⟩
  rw [inFlightOf_eq hcheck, hseq]
  simp [CheckState.asked]

/-- Settling publishes for its own document alone. -/
theorem Settling.own {uri v : String} {c : CheckState} {x : Effect} (h : Settling uri c r x)
    (hpublished : PublishesOf v x) : v = uri := by
  obtain ⟨diagnostics, version, rfl⟩ := hpublished
  cases h
  rfl

theorem adds_settle_other {uri v : String} (hv : v ≠ uri) (c : CheckState) (r : Relay) :
    Adds (fun x => ¬ PublishesOf v x) r (r.settle uri c).1 :=
  (adds_settling uri c r).mono fun _ hx hpublished => hv (hx.own hpublished)

theorem check?_settle (uri : String) (c : CheckState) (r : Relay) :
    ∃ fresh, ∀ u, (r.settle uri c).1.check? u =
      if uri = u then some { c.ended with fresh } else r.check? u := by
  obtain ⟨fresh, fx, hshape, -⟩ := settle_shape uri c r
  exact ⟨fresh, fun u => by rw [hshape]; exact Table.get?_put ..⟩

theorem accounted_settle (uri : String) (c : CheckState) (r : Relay) :
    Adds (Accounted (r.settle uri c).1) r (r.settle uri c).1 := by
  obtain ⟨fresh, hrecord⟩ := check?_settle uri c r
  refine (adds_settling uri c r).mono fun x hx => ?_
  cases hx with
  | published =>
    change (r.settle uri c).1.check? uri ≠ none
    simp [hrecord]
  | _ => exact trivial

theorem accounted_heard {note : News} {failure : Option Failure}
    (hheard : Heard r note r' failure) : Adds (Accounted r') r r' := by
  cases hheard with
  | settled => exact accounted_settle _ _ r
  | @repeated seq u c e text =>
    refine ⟨[.logged .info text, .sent ⟨(r.nextSeq : Nat), Service.errorCheckName,
      checkArguments c.file⟩], by simp [wrote, emit, log, completed, setCheck, retireAbandoned,
        takeSeq, nextSeq], fun x hx => ?_⟩
    rcases List.mem_cons.mp hx with rfl | hx
    · exact trivial
    · cases List.mem_singleton.mp hx
      exact accounted_asked u (c.again seq) ⟨_, (check?_setCheck ..).trans (if_pos rfl)⟩ rfl rfl
  | severed => exact ⟨[_], rfl, by simp [Accounted]⟩
  | @exhausted seq u c e text =>
    exact .trans ⟨[.logged .warning text], rfl, by simp [Accounted]⟩ (accounted_settle _ _ _)
  | _ => exact .of_outbox_eq rfl

theorem accounted_requestCheck (uri : String) (waiter : Nat) (r : Relay) :
    Adds (Accounted (r.requestCheck uri waiter).1) r (r.requestCheck uri waiter).1 := by
  have hasking := asking_requestCheck uri waiter r
  generalize r.requestCheck uri waiter = asked at hasking ⊢
  obtain ⟨r', result⟩ := asked
  cases hasking with
  | refused henrolled => exact .of_outbox_eq henrolled.outbox
  | @begun r₁ c file henrolled hout hfresh hup =>
    refine ⟨[.sent ⟨(r₁.nextSeq : Nat), Service.errorCheckName, checkArguments c.file⟩],
      by rw [← henrolled.outbox]; rfl, fun x hx => ?_⟩
    cases List.mem_singleton.mp hx
    have hbegun := (check?_begun henrolled r.setup.categories r.nextSeq waiter uri).trans (if_pos rfl)
    exact accounted_asked uri c ⟨_, hbegun⟩ (by rw [nextSeq, henrolled.link, nextSeq]) rfl
  | _ => exact .of_outbox_eq rfl

/-- One more waiter does not matter to what is in flight. -/
theorem retains_addWaiter (uri : String) (waiter : Nat) (r : Relay) :
    Retains r (r.addWaiter uri waiter) ∧ Retains (r.addWaiter uri waiter) r := by
  have hcheck := check?_addWaiter uri waiter r
  refine ⟨fun u c hc => ?_, fun u c hc => ?_⟩
  · rw [hcheck, hc]
    split
    · exact ⟨_, rfl, rfl, fun _ he => he⟩
    · exact ⟨c, rfl, rfl, fun _ he => he⟩
  · rw [hcheck] at hc
    split at hc
    · obtain ⟨d, hd, rfl⟩ := Option.map_eq_some_iff.mp hc
      exact ⟨d, hd, rfl, fun _ he => he⟩
    · exact ⟨c, hc, rfl, fun _ he => he⟩

/-- Asking for diagnostics leaves what is in flight. -/
theorem Asking.retains {waiter : Nat} {result : Except Failure Bool}
    (h : Asking uri waiter r r' result) : Retains r r' := by
  -- a record there was is the record there is once the document has one
  have hsame : ∀ {file r₁ c d}, Enrolled uri file r r₁ c → r.check? uri = some d → c = d := by
    intro file r₁ c d henrolled hcheck
    rcases henrolled.before with hbefore | ⟨hnone, -⟩
    · exact Option.some.inj (hbefore.symm.trans hcheck)
    · rw [hcheck] at hnone
      cases hnone
  cases h with
  | unopened => exact .refl _
  | current => exact .refl _
  | joined => exact (retains_addWaiter uri waiter r).1
  | @refused r₁ c file cause henrolled =>
    intro u d hcheck
    refine ⟨d, (henrolled.records u).trans ?_, rfl, fun _ he => he⟩
    split
    · rename_i hu
      subst hu
      rw [hsame henrolled hcheck]
    · exact hcheck
  | @begun r₁ c file henrolled =>
    intro u d hcheck
    rw [check?_begun henrolled]
    split
    · rename_i hu
      subst hu
      rw [hsame henrolled hcheck]
      exact ⟨_, rfl, rfl, fun e he => List.mem_append_left _ he⟩
    · exact ⟨d, hcheck, rfl, fun _ he => he⟩

theorem retains_requestCheck (uri : String) (waiter : Nat) (r : Relay) :
    Retains r (r.requestCheck uri waiter).1 :=
  (asking_requestCheck uri waiter r).retains

theorem accounted_invalidate (uri : String) (r : Relay) :
    Adds (Accounted (r.invalidate uri).1) r (r.invalidate uri).1 := by
  have hstale : r.stale.outbox = r.outbox := rfl
  unfold invalidate
  simp only []
  generalize r.stale = r₁ at hstale ⊢
  split
  · exact .of_outbox_eq hstale
  · rename_i c hcheck
    split
    · exact .of_outbox_eq hstale
    · split
      · exact .of_outbox_eq hstale
      · cases htaken : r₁.link.refusal? with
        | some cause =>
          rw [startGeneration_of_refused cause htaken]
          exact .of_outbox_eq hstale
        | none =>
          rw [startGeneration_of_taken htaken]
          refine ⟨[_], by rw [← hstale]; rfl, fun x hx => ?_⟩
          cases List.mem_singleton.mp hx
          exact accounted_asked uri c ⟨_, (check?_setCheck ..).trans (if_pos rfl)⟩ rfl rfl

/-- **Whatever a move writes or publishes is accounted for** by the records it
leaves. -/
theorem accounted_perform (m : Move) (hsound : r.Sound) :
    Adds (Accounted (m.perform r).1) r (m.perform r).1 := by
  have hkey : ∀ uri s, r.session? uri = some s → s.uri = uri :=
    fun uri s hs => (hsound.filed uri s hs).1
  have htold : ∀ r₁ uri, Amends r r₁ →
      Adds (Accounted (r₁.invalidate uri).1) r (r₁.invalidate uri).1 := fun r₁ uri hamends =>
    (hamends.adds.mono fun _ => accounted_of_not_ofChecks).trans (accounted_invalidate uri r₁)
  cases hnews : m.news? with
  | some note =>
    exact (accounted_heard (heard_hear note r)).accounted_quiet (perform_of_news hnews r).1
  | none =>
    have hincidental : m.Incidental → Adds (Accounted (m.perform r).1) r (m.perform r).1 :=
      fun hm => (quiet_perform hm hnews r).adds.mono fun _ => accounted_of_not_ofChecks
    cases m with
    | openDocument uri languageId version content =>
      change Adds (Accounted (r.openDocument uri languageId version content).1) r
        (r.openDocument uri languageId version content).1
      obtain ⟨r₁, -, hamends, ⟨heq, -⟩ | ⟨heq, -⟩⟩ :=
        openDocument_split (List.mem_singleton_self uri) languageId version content r
      · rw [heq]
        exact htold r₁ uri hamends
      · rw [heq]
        exact hamends.adds.mono fun _ => accounted_of_not_ofChecks
    | changeDocument uri version changes =>
      change Adds (Accounted (r.changeDocument uri version changes).1) r
        (r.changeDocument uri version changes).1
      cases hopen : r.session? uri with
      | none =>
        rw [changeDocument_of_not_open hopen]
        exact .refl _ r
      | some s =>
        obtain ⟨r₁, -, hamends, heq⟩ : ∃ r₁, Steps [] r r₁ ∧ Amends r r₁ ∧
            (r.changeDocument uri version changes).1 = (r₁.invalidate uri).1 :=
          changeDocument_split hopen (hkey uri s hopen) version changes
        rw [heq]
        exact htold r₁ uri hamends
    | closeDocument uri =>
      change Adds (Accounted (r.closeDocument uri).1) r (r.closeDocument uri).1
      cases hopen : r.session? uri with
      | none =>
        rw [closeDocument_of_not_open hopen]
        exact .refl _ r
      | some s =>
        exact ((adds_forget uri { r with sessions := Table.erase uri r.sessions }).mono
          fun _ => accounted_of_silent).accounted_quiet (quiet_closeDocument hopen)
    | requestCheck uri waiter => exact accounted_requestCheck uri waiter r
    | withdrawWaiter waiter => exact .of_outbox_eq rfl
    | disconnect cause =>
      change Adds (Accounted (r.disconnect cause)) r (r.disconnect cause)
      by_cases hclosed : r.link.closed = none
      · exact (adds_disconnect hclosed cause).mono fun _ => accounted_of_silent
      · rw [disconnect_of_closed hclosed]
        exact .refl _ r
    | _ => exact hincidental trivial

end Relay

end LanguageRelay
