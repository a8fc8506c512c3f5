import LanguageRelay.Proofs.Relay.Sessions
/-!
# Frames

What an operation of a relay leaves as it was is a relation between the relays
before and after it. If such a relation puts up with changes of documents and
of the records of their checks, with what is said, and with commands that
nobody waits on, then it holds across whatever is made of these. A `Frame` is
such a relation, and the operations are followed here once for all frames.
Timers and responses are what no operation below has to do with.
-/

namespace LanguageRelay

/-- The effect says something, of documents or of events: it is no command, no
outcome of one, and no timer is concerned. -/
def Effect.Said : Effect → Prop
  | .logged .. | .published .. | .released .. | .noticed .. => True
  | _ => False

namespace Relay

/-- **A relation that documents, what is said and commands keep.** -/
structure Frame (R : Relay → Relay → Prop) : Prop where
  trans {r r' r'' : Relay} : R r r' → R r' r'' → R r r''
  /-- Documents change, and the records of their checks. -/
  records (r : Relay) (sessions : List (String × Session)) (checks : List (String × CheckState))
    (uriByFile : List (String × String)) (abandoned : List (String × List InFlight)) :
    R r { r with sessions, checks, uriByFile, abandoned }
  said {e : Effect} (he : e.Said) (r : Relay) : R r (r.emit e)
  /-- A command is written that nobody waits on, or refused. -/
  notify (name : String) (arguments : Json) (r : Relay) : R r (r.notify name arguments).1

namespace Frame

variable {R : Relay → Relay → Prop} {r : Relay}

theorem refl (h : Frame R) (r : Relay) : R r r := h.records r _ _ _ _

theorem log (h : Frame R) (level : LogLevel) (text : String) (r : Relay) :
    R r (r.log level text) :=
  h.said (e := .logged level text) trivial r

/-- Any number of things are said. -/
theorem saidAll (h : Frame R) {fx : List Effect} (hfx : ∀ e ∈ fx, e.Said) (r : Relay) :
    R r { r with outbox := r.outbox ++ fx } := by
  induction fx generalizing r with
  | nil =>
    rw [List.append_nil]
    exact h.refl r
  | cons e rest ih =>
    have hrest := ih (fun e he => hfx e (List.mem_cons_of_mem _ he)) (r.emit e)
    simp only [emit, List.append_assoc, List.singleton_append] at hrest
    exact h.trans (h.said (hfx e List.mem_cons_self) r) hrest

/-! ## Error checks -/

theorem setCheck (h : Frame R) (uri : String) (c : CheckState) (r : Relay) :
    R r (r.setCheck uri c) :=
  h.records r _ _ _ _

theorem releaseWaiters (h : Frame R) (outcome : Except Failure Unit) (ws : List Waiter)
    (r : Relay) : R r (releaseWaiters outcome ws r) := by
  rw [releaseWaiters_eq]
  refine h.saidAll (fun e he => ?_) r
  obtain ⟨w, -, rfl⟩ := List.mem_map.mp he
  trivial

theorem logSkipped (h : Frame R) (uri : String) (faults : List ProtocolFault) (r : Relay) :
    R r (logSkipped uri faults r) := by
  rw [logSkipped_eq]
  refine h.saidAll (fun e he => ?_) r
  obtain ⟨fault, -, rfl⟩ := List.mem_map.mp he
  trivial

theorem startGeneration (h : Frame R) (uri : String) (c : CheckState) (r : Relay) :
    R r (r.startGeneration uri c).1 := by
  have hwritten := h.notify Service.errorCheckName (checkArguments c.file) r
  unfold Relay.startGeneration
  split
  · rename_i heq
    rwa [heq] at hwritten
  · rename_i heq
    rw [heq] at hwritten
    exact h.trans hwritten (h.setCheck _ _ _)

theorem invalidate (h : Frame R) (uri : String) (r : Relay) : R r (r.invalidate uri).1 := by
  have hstale : R r r.stale := h.records r _ _ _ _
  unfold Relay.invalidate
  simp only []
  split
  · exact hstale
  · split
    · exact hstale
    · split
      · exact h.trans hstale (h.setCheck _ _ _)
      · exact h.trans hstale (h.startGeneration _ _ _)

theorem enroll (h : Frame R) (uri file : String) (r : Relay) : R r (r.enroll uri file).1 := by
  unfold Relay.enroll
  split
  · exact h.refl r
  · exact h.records r _ _ _ _

theorem requestCheck (h : Frame R) (uri : String) (waiter : Nat) (r : Relay) :
    R r (r.requestCheck uri waiter).1 := by
  have hwaits : ∀ r : Relay, R r (r.addWaiter uri waiter) := fun r => h.records r _ _ _ _
  unfold Relay.requestCheck
  split
  · exact h.refl r
  · rename_i s _
    have henrolled := h.enroll uri s.file r
    simp only []
    generalize r.enroll uri s.file = enrolled at henrolled ⊢
    obtain ⟨r₁, c⟩ := enrolled
    have hstarted := h.startGeneration uri c r₁
    split
    · split
      · exact henrolled
      · split
        · rename_i heq
          rw [heq] at hstarted
          exact h.trans henrolled hstarted
        · rename_i heq
          rw [heq] at hstarted
          exact h.trans (h.trans henrolled hstarted) (hwaits _)
    · exact h.trans henrolled (hwaits _)

theorem settle (h : Frame R) (uri : String) (c : CheckState) (r : Relay) :
    R r (r.settle uri c).1 := by
  unfold Relay.settle
  simp only []
  generalize hended : Relay.setCheck uri _ r = r₀
  have hr₀ : R r r₀ := hended ▸ h.setCheck uri _ r
  split
  · exact h.trans hr₀ (h.releaseWaiters _ _ _)
  · have hskipped := fun faults => h.trans hr₀ (h.logSkipped uri faults r₀)
    split
    · exact hskipped _
    · refine h.trans (h.trans (hskipped _) (h.setCheck uri _ _))
        (h.trans (h.said ?_ _) (h.releaseWaiters _ _ _))
      trivial

theorem report (h : Frame R) (uri category : String) (entries : List Json) (c : CheckState)
    (r : Relay) : R r (r.report uri category entries c).1 := by
  unfold Relay.report
  split
  · exact h.refl r
  · simp only []
    split
    · exact h.setCheck _ _ _
    · split
      · exact h.trans (h.setCheck _ _ _) (h.settle _ _ _)
      · exact h.setCheck _ _ _

theorem reportFile (h : Frame R) (file category : String) (entries : List Json) (r : Relay) :
    R r (r.reportFile file category entries).1 := by
  unfold Relay.reportFile
  split
  · rename_i r' hcredited
    obtain ⟨⟨e, left⟩, -, rfl⟩ := Option.map_eq_some_iff.mp hcredited
    exact h.records r _ _ _ _
  · split
    · exact h.refl r
    · split
      · exact h.refl r
      · exact h.report _ _ _ _ _

theorem incomplete (h : Frame R) (uri : String) (c : CheckState) (r : Relay) :
    R r (r.incomplete uri c).1 := by
  unfold Relay.incomplete
  simp only []
  split
  · exact h.trans (h.log _ _ r) (h.settle _ _ _)
  · exact h.trans (h.trans (h.log _ _ r) (h.setCheck _ _ _)) (h.startGeneration _ _ _)

theorem complete (h : Frame R) (seq : Int) (r : Relay) : R r (r.complete seq).1 := by
  have hretired : R r (r.retireAbandoned seq) := h.records r _ _ _ _
  unfold Relay.complete
  simp only []
  split
  · exact hretired
  · split
    · exact h.trans hretired (h.setCheck _ _ _)
    · exact h.trans (h.trans hretired (h.setCheck _ _ _)) (h.incomplete _ _ _)

theorem handleEvent (h : Frame R) (event : Service.Event) (r : Relay) :
    R r (r.handleEvent event).1 := by
  unfold Relay.handleEvent
  split
  · split
    · exact h.complete _ r
    · exact h.refl r
  · split
    · exact h.reportFile _ _ _ r
    · exact h.refl r

/-- **A message that is no response** says something, or asks for another
check. -/
theorem receive (h : Frame R) {message : Json} (r : Relay)
    (hmessage : ∀ response, Service.Message.ofJson message ≠ .ok (.response response)) :
    R r (r.receive message).1 := by
  unfold Relay.receive
  split
  · exact h.log _ _ r
  · rename_i response heq
    exact absurd heq (hmessage response)
  · rename_i event _
    have hheard := h.handleEvent event r
    split
    · rename_i heq
      rwa [heq] at hheard
    · rename_i heq
      rw [heq] at hheard
      exact h.trans hheard (h.said (e := .noticed event) trivial _)

/-! ## Documents -/

theorem sendChange (h : Frame R) (file : String) (range : Range) (text : String) (r : Relay) :
    R r (r.sendChange file range text).1 := by
  have hwritten := h.notify Service.changeName (changeArguments file range text) r
  unfold Relay.sendChange
  split
  all_goals
    rename_i heq
    rwa [heq] at hwritten

theorem setSession (h : Frame R) (s : Session) (r : Relay) : R r (r.setSession s) :=
  h.records r _ _ _ _

theorem changeEach (h : Frame R) (s : Session) (changes : List TextChange) (r : Relay) :
    R r (changeEach s changes r).1 := by
  induction changes generalizing s r with
  | nil => exact h.refl r
  | cons change rest ih =>
    rw [Relay.changeEach]
    simp only []
    have hsent := h.trans (h.setSession { s with text := (change.apply s.text).1 } r)
      (h.sendChange s.file ((change.apply s.text).2.getD (wholeRange s.text)) change.text _)
    split
    · rename_i heq
      rwa [heq] at hsent
    · rename_i heq
      rw [heq] at hsent
      exact h.trans hsent (ih _ _)

theorem changeAll (h : Frame R) (s : Session) (changes : List TextChange) (r : Relay) :
    R r (r.changeAll s changes) := by
  unfold Relay.changeAll
  split
  · exact h.trans (h.setSession _ r) (h.sendChange _ _ _ _)
  · exact h.changeEach s changes r

theorem changeDocument (h : Frame R) (uri : String) (version : Int) (changes : List TextChange)
    (r : Relay) : R r (r.changeDocument uri version changes).1 := by
  cases hopen : r.session? uri with
  | none =>
    rw [changeDocument_of_not_open hopen]
    exact h.refl r
  | some s =>
    have hwarned : R r (r.checkVersion uri s version) := by
      rcases checkVersion_cases uri s version r with heq | ⟨text, heq⟩ <;> rw [heq]
      · exact h.refl r
      · exact h.log _ _ r
    have hset := h.trans hwarned (h.setSession { s with version } _)
    rw [changeDocument_of_open hopen]
    exact h.trans (h.trans hset (h.changeAll _ changes _)) (h.invalidate uri _)

theorem openDocument (h : Frame R) (uri languageId : String) (version : Int) (content : String)
    (r : Relay) : R r (r.openDocument uri languageId version content).1 := by
  have hlogged : R r (r.reopening uri) := by
    rcases reopening_cases uri r with heq | ⟨text, heq⟩ <;> rw [heq]
    · exact h.refl r
    · exact h.log _ _ r
  have hannounced : ∀ s, R r ((r.reopening uri).announce s content) := fun s =>
    h.trans hlogged (h.trans (h.setSession s _) (h.notify _ _ _))
  rcases openDocument_cases uri languageId version content r with ⟨-, heq⟩ |
    ⟨file, r', -, rfl, ⟨heq, -⟩ | ⟨heq, -⟩⟩ <;> rw [heq]
  · exact hlogged
  · exact hannounced _
  · exact h.trans (hannounced _) (h.invalidate uri _)

/-- Apart from its timer, forgetting a document concerns records alone. -/
theorem forget (h : Frame R) (uri : String) (r : Relay) : R (r.disarm uri) (r.forget uri) := by
  unfold Relay.forget
  simp only []
  split
  · exact h.refl _
  · rename_i c _
    refine h.trans ?_ (h.releaseWaiters _ _ _)
    unfold abandon unlinkFile
    split <;> split <;> exact h.records _ _ _ _ _

/-- So does closing it. -/
theorem closeDocument (h : Frame R) {uri : String} {s : Session} (hopen : r.session? uri = some s) :
    R (disarm uri { r with sessions := Table.erase uri r.sessions }) (r.closeDocument uri).1 := by
  rw [closeDocument_of_open hopen]
  exact h.trans (h.forget uri { r with sessions := Table.erase uri r.sessions }) (h.notify _ _ _)

/-! ## What the editor announces -/

/-- What is shown for a closed document is cleared. -/
theorem didClose (h : Frame R) (uri : String) (r : Relay) :
    R (r.closeDocument uri).1 (r.didClose uri).1 := by
  unfold Relay.didClose
  split
  · rename_i heq
    rw [heq]
    exact h.refl _
  · rename_i heq
    rw [heq]
    exact h.said (e := .published uri [] none) trivial _

theorem shutdown (h : Frame R) (r : Relay) : R r r.shutdown.1 := by
  have hwritten := h.notify Service.exitName .null r
  unfold Relay.shutdown
  split
  · exact h.refl r
  · split
    all_goals
      rename_i heq
      rwa [heq] at hwritten

end Frame

end Relay

end LanguageRelay
