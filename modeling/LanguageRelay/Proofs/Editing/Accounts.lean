import LanguageRelay.Proofs.Editing.Doings
/-!
# Who waits for what

What a call waits for is kept twice: by the call itself, and by the relay,
which lists the commands that await a response and the calls that wait for
diagnostics. `Accounted` says that the two accounts agree, and
`accounted_work` that they do after any deeds.

One half of it has a proviso. A message that makes the relay fail may take
calls off its list without telling them, and then they wait for nothing. So
only where no message fails does every call that waits for diagnostics stand
on the list.
-/

namespace LanguageRelay

/-- What a call waits for. -/
inductive Want where
  /-- The response to the command with a number. -/
  | response (seq : Nat) (command : String)
  | diagnostics

/-- What the call waits for, if it waits for something of the first relay. -/
def Call.want? (c : Call) : Option Want :=
  match c.stage with
  | .asking 0 seq ask _ none _ => some (.response seq ask.command)
  | .checking _ none => some .diagnostics
  | _ => none

/-- The effects bring the call with a number what it waits for. -/
def Want.Met (fx : List Effect) (id : Nat) : Want → Prop
  | .response seq _ => ∃ o, .answered seq o ∈ fx
  | .diagnostics => ∃ o, .released id o ∈ fx

namespace Engine

variable {id seq : Nat} {c c' : Call} {command : String} {fx : List Effect}

theorem want?_eq_response : c.want? = some (.response seq command) ↔
    ∃ ask watch next, c.stage = .asking 0 seq ask watch none next ∧ ask.command = command := by
  unfold Call.want?
  split
  · rename_i hstage
    simp [hstage]
  · rename_i hstage
    simp [hstage]
  · rename_i hasking hchecking
    simp only [reduceCtorEq, false_iff]
    rintro ⟨ask, watch, next, hstage, -⟩
    exact hasking _ _ _ _ hstage

theorem want?_eq_diagnostics : c.want? = some .diagnostics ↔ ∃ i, c.stage = .checking i none := by
  unfold Call.want?
  split
  · rename_i hstage
    simp [hstage]
  · rename_i hstage
    simp [hstage]
  · rename_i hasking hchecking
    simpa using hchecking

/-- A call that does not wait waits for nothing. -/
theorem want?_of_not_waits (h : ¬ c.Waits) : c.want? = none := by
  unfold Call.want?
  split
  · rename_i hstage
    simp [Call.Waits, hstage] at h
  · rename_i hstage
    simp [Call.Waits, hstage] at h
  · rfl

/-- **Effects leave a call that is not told waiting**, and no other. -/
theorem want?_foldl_heed (fx : List Effect) (id : Nat) (c : Call) (w : Want) :
    (fx.foldl (Call.heed id) c).want? = some w ↔ c.want? = some w ∧ ¬ w.Met fx id := by
  rcases foldl_heed_cases fx id c with ⟨hsame, hasking, hchecking⟩ |
    ⟨seq, ask, watch, next, o, hstage, ho, htold⟩ | ⟨i, o, hstage, ho, htold⟩
  · rw [hsame]
    refine ⟨fun hw => ⟨hw, fun hmet => ?_⟩, And.left⟩
    cases w with
    | response seq command =>
      obtain ⟨ask, watch, next, hstage, -⟩ := want?_eq_response.mp hw
      obtain ⟨o, ho⟩ := hmet
      exact hasking seq ask watch next hstage o ho
    | diagnostics =>
      obtain ⟨i, hstage⟩ := want?_eq_diagnostics.mp hw
      obtain ⟨o, ho⟩ := hmet
      exact hchecking i hstage o ho
  · have hwant : c.want? = some (.response seq ask.command) :=
      want?_eq_response.mpr ⟨ask, watch, next, hstage, rfl⟩
    have hdone : (fx.foldl (Call.heed id) c).want? = none := by
      rw [htold]
      exact want?_of_not_waits (by simp [Call.Waits])
    rw [hdone, hwant]
    refine ⟨by simp, ?_⟩
    rintro ⟨hw, hunmet⟩
    cases hw
    exact absurd ⟨o, ho⟩ hunmet
  · have hwant : c.want? = some .diagnostics := want?_eq_diagnostics.mpr ⟨i, hstage⟩
    have hdone : (fx.foldl (Call.heed id) c).want? = none := by
      rw [htold]
      exact want?_of_not_waits (by simp [Call.Waits])
    rw [hdone, hwant]
    refine ⟨by simp, ?_⟩
    rintro ⟨hw, hunmet⟩
    cases hw
    exact absurd ⟨o, ho⟩ hunmet

/-! ## What calls want -/

/-- One of the calls, by number, waits for something. -/
def Wants (calls : List (Nat × Call)) (id : Nat) (w : Want) : Prop :=
  ∃ c, (id, c) ∈ calls ∧ c.want? = some w

variable {calls : List (Nat × Call)} {i j : Nat} {w : Want}

theorem wants_iff_of_call (hsingle : (Table.keys calls).Nodup) (hcall : (id, c) ∈ calls) (w : Want) :
    Wants calls id w ↔ c.want? = some w := by
  refine ⟨?_, fun hw => ⟨c, hcall, hw⟩⟩
  rintro ⟨d, hd, hw⟩
  have hsame := ((Table.get?_eq_some_iff hsingle).mpr hd).symm.trans
    ((Table.get?_eq_some_iff hsingle).mpr hcall)
  cases hsame
  exact hw

theorem wants_update (hsingle : (Table.keys calls).Nodup) (hcall : (id, c) ∈ calls) (c' : Call)
    (i : Nat) (w : Want) : Wants (Table.update id (fun _ => c') calls) i w ↔
      i = id ∧ c'.want? = some w ∨ i ≠ id ∧ Wants calls i w := by
  simp only [Wants, Table.mem_update_iff hsingle]
  constructor
  · rintro ⟨d, ⟨rfl, -, -, rfl⟩ | ⟨hne, hd⟩, hw⟩
    · exact .inl ⟨rfl, hw⟩
    · exact .inr ⟨hne, d, hd, hw⟩
  · rintro (⟨rfl, hw⟩ | ⟨hne, d, hd, hw⟩)
    · exact ⟨c', .inl ⟨rfl, c, hcall, rfl⟩, hw⟩
    · exact ⟨d, .inr ⟨hne, hd⟩, hw⟩

theorem wants_erase (id i : Nat) (w : Want) :
    Wants (Table.erase id calls) i w ↔ i ≠ id ∧ Wants calls i w := by
  simp only [Wants, Table.mem_erase_iff]
  constructor
  · rintro ⟨d, ⟨hd, hne⟩, hw⟩
    exact ⟨hne, d, hd, hw⟩
  · rintro ⟨hne, d, hd, hw⟩
    exact ⟨d, ⟨hd, hne⟩, hw⟩

/-- What is heeded is not waited for any more. -/
theorem wants_heed (fx : List Effect) (i : Nat) (w : Want) :
    Wants (calls.map fun x => (x.1, fx.foldl (Call.heed x.1) x.2)) i w ↔
      Wants calls i w ∧ ¬ w.Met fx i := by
  constructor
  · rintro ⟨d, hd, hw⟩
    obtain ⟨⟨i, c⟩, hc, heq⟩ := List.mem_map.mp hd
    cases heq
    obtain ⟨hw, hunmet⟩ := (want?_foldl_heed fx i c w).mp hw
    exact ⟨⟨c, hc, hw⟩, hunmet⟩
  · rintro ⟨⟨c, hc, hw⟩, hunmet⟩
    exact ⟨_, List.mem_map.mpr ⟨(i, c), hc, rfl⟩, (want?_foldl_heed fx i c w).mpr ⟨hw, hunmet⟩⟩

/-- No two calls wait for the same response. -/
theorem eq_of_wants_response {command' : String} (h : Apart calls)
    (hi : Wants calls i (.response seq command)) (hj : Wants calls j (.response seq command')) :
    i = j := by
  obtain ⟨c, hc, hw⟩ := hi
  obtain ⟨d, hd, hw'⟩ := hj
  obtain ⟨ask, watch, next, hstage, -⟩ := want?_eq_response.mp hw
  obtain ⟨ask', watch', next', hstage', -⟩ := want?_eq_response.mp hw'
  exact h.distinct _ hc _ hd seq (by simp [Call.seq?, hstage]) (by simp [Call.seq?, hstage'])

end Engine

/-! ## What relays do about it -/

namespace Relay

variable {P : Service.Command → Prop} {whole : Prop} {r r' r'' : Relay}

/-- **The operation accounts for all that wait**: what it takes off its lists it
tells, and whom it tells it takes off. Where it is not `whole`, calls that
wait for diagnostics may be lost. -/
structure Accounts (whole : Prop) (fx : List Effect) (r r' : Relay) : Prop where
  kept : ∀ p ∈ r'.link.pending, p ∈ r.link.pending ∧ ∀ o, .answered p.seq o ∉ fx
  told : ∀ p ∈ r.link.pending, p.settled = false →
    p ∈ r'.link.pending ∨ ∃ o, .answered p.seq o ∈ fx
  listed : ∀ uri id, r'.Listed uri id → r.Listed uri id
  released : ∀ id o, .released id o ∈ fx → ∃ uri, r.Listed uri id ∧ ∀ id', ¬ r'.Listed uri id'
  whole : whole → ∀ uri id, r.Listed uri id → r'.Listed uri id ∨ ∃ o, .released id o ∈ fx

theorem Abides.accounts (h : Abides P whole r r') (hcollected : r.outbox = []) :
    Accounts whole r'.outbox r r' := by
  obtain ⟨fx, hfx, hallowed, hreleased, hwhole⟩ := h.added
  rw [hcollected, List.nil_append] at hfx
  subst hfx
  refine ⟨fun p hp => ⟨h.pending ▸ hp, fun o ho => hallowed _ ho⟩, fun p hp _ => .inl ?_, h.listed,
    hreleased, hwhole⟩
  rwa [h.pending]

/-- A response is accounted for. -/
theorem accounts_resolve (hlink : r.link.Sound) (hcollected : r.outbox = [])
    (response : Service.Response) :
    Accounts whole (r.resolve response).outbox r (r.resolve response) := by
  rcases resolve_cases response r with heq | ⟨p, hp, fx, heq, hfx⟩
  · rw [heq]
    exact (abides_log (P := fun _ => True) _ _ r).accounts hcollected
  · have houtbox : (r.resolve response).outbox = fx := by rw [heq]; simp [hcollected]
    rw [houtbox, heq]
    refine ⟨fun q hq => ?_, fun q hq hopen => ?_, fun _ _ => id, fun id o ho => ?_,
      fun _ _ _ => .inl⟩
    · obtain ⟨hq, hne⟩ := List.mem_filter.mp hq
      refine ⟨hq, fun o ho => ?_⟩
      rcases hfx with ⟨-, rfl⟩ | ⟨-, rfl⟩
      · simp at ho
      · rw [List.mem_singleton] at ho
        injection ho with hseq
        simp [hseq] at hne
    · by_cases hne : q.seq = p.seq
      · -- each number is listed once
        obtain rfl : q = p := List.inj_on_of_nodup_map hlink.listed hq hp hne
        rcases hfx with ⟨hsettled, -⟩ | ⟨-, rfl⟩
        · rw [hsettled] at hopen
          cases hopen
        · exact .inr ⟨_, List.mem_singleton_self _⟩
      · exact .inl (List.mem_filter.mpr ⟨hq, by simpa using hne⟩)
    · rcases hfx with ⟨-, rfl⟩ | ⟨-, rfl⟩ <;> simp at ho

/-- A call that gives up waits no more. -/
theorem listed_withdrawWaiter (waiter : Nat) (uri : String) (id : Nat) :
    (r.withdrawWaiter waiter).Listed uri id ↔ r.Listed uri id ∧ id ≠ waiter := by
  have hmem : ∀ ws : List Waiter, ⟨id, false⟩ ∈ ws.map (Waiter.withdraw waiter) ↔
      ⟨id, false⟩ ∈ ws ∧ id ≠ waiter := by
    intro ws
    simp only [List.mem_map, Waiter.withdraw]
    constructor
    · rintro ⟨w, hw, heq⟩
      split at heq
      · cases heq
      · rename_i hne
        exact ⟨heq ▸ hw, by rw [heq] at hne; exact hne⟩
    · rintro ⟨hw, hne⟩
      exact ⟨_, hw, if_neg hne⟩
  have hcheck : (r.withdrawWaiter waiter).check? uri = _ := check?_mapChecks _ r uri
  rw [Listed, Listed, hcheck]
  simp only [Option.map_eq_some_iff]
  constructor
  · rintro ⟨_, ⟨d, hd, rfl⟩, hw⟩
    exact ⟨⟨d, hd, ((hmem _).mp hw).1⟩, ((hmem _).mp hw).2⟩
  · rintro ⟨⟨d, hd, hw⟩, hne⟩
    exact ⟨_, ⟨d, hd, rfl⟩, (hmem _).mpr ⟨hw, hne⟩⟩

/-- Who waits for diagnostics may be told from the waiters of all records. -/
theorem listed_iff_mem (hsingle : (Table.keys r.checks).Nodup) (id : Nat) :
    (∃ uri, r.Listed uri id) ↔ ⟨id, false⟩ ∈ r.checks.flatMap fun e => e.2.waiters := by
  simp only [Listed, check?, Table.get?_eq_some_iff hsingle, List.mem_flatMap, Prod.exists]

/-- What the closing of the connection tells. -/
def closing (cause : Closure) (r : Relay) : List Effect :=
  rejectionNotice cause r.link.pending ++ rejections cause r.link.pending
    ++ r.scheduled.map (fun e => .disarmed e.1 e.2)
    ++ releases (.error (.closed cause)) (r.checks.flatMap fun e => e.2.waiters) ++ [.closed cause]

/-- The closing gives outcomes to the commands that await a response. -/
theorem answered_mem_closing {cause : Closure} {seq : Nat} {o : Except Failure Json} :
    .answered seq o ∈ r.closing cause ↔
      (∃ p ∈ r.link.pending, p.seq = seq ∧ p.settled = false) ∧ o = .error (.closed cause) := by
  have hnotice : Effect.answered seq o ∉ rejectionNotice cause r.link.pending := by
    unfold rejectionNotice
    split <;> simp
  simp only [closing, List.mem_append, hnotice, false_or, rejections, releases, List.mem_map,
    List.mem_filter, List.mem_singleton, Bool.not_eq_true', reduceCtorEq, and_false, exists_false,
    or_false, Effect.answered.injEq]
  constructor
  · rintro ⟨p, ⟨hp, hopen⟩, hseq, ho⟩
    exact ⟨⟨p, hp, hseq, hopen⟩, ho.symm⟩
  · rintro ⟨⟨p, hp, hseq, hopen⟩, ho⟩
    exact ⟨p, ⟨hp, hopen⟩, hseq, ho.symm⟩

/-- And to the calls that wait for diagnostics. -/
theorem released_mem_closing {cause : Closure} {id : Nat} {o : Except Failure Unit}
    (hsingle : (Table.keys r.checks).Nodup) :
    .released id o ∈ r.closing cause ↔
      (∃ uri, r.Listed uri id) ∧ o = .error (.closed cause) := by
  have hnotice : Effect.released id o ∉ rejectionNotice cause r.link.pending := by
    unfold rejectionNotice
    split <;> simp
  rw [listed_iff_mem hsingle]
  simp only [closing, List.mem_append, hnotice, false_or, rejections, List.mem_map,
    List.mem_singleton, reduceCtorEq, and_false, exists_false, or_false, mem_releases]
  exact and_congr_right fun _ => eq_comm

/-- Nobody waits for diagnostics once the connection is closed. -/
theorem unlisted_disconnect (hup : r.link.closed = none) (cause : Closure) (uri : String)
    (id : Nat) : ¬ (r.disconnect cause).Listed uri id := by
  rintro ⟨c, hcheck, hw⟩
  rw [disconnect_of_open hup] at hcheck
  obtain ⟨d, -, rfl⟩ := Option.map_eq_some_iff.mp
    ((check?_mapChecks CheckState.severed r uri).symm.trans hcheck)
  simp [CheckState.severed] at hw

theorem outbox_disconnect (hup : r.link.closed = none) (hcollected : r.outbox = [])
    (cause : Closure) : (r.disconnect cause).outbox = r.closing cause := by
  rw [disconnect_of_open hup]
  simp [hcollected, closing]

/-- **So is the closing of the connection.** -/
theorem accounts_disconnect (hup : r.link.closed = none) (hcollected : r.outbox = [])
    (hsingle : (Table.keys r.checks).Nodup) (cause : Closure) :
    Accounts whole (r.disconnect cause).outbox r (r.disconnect cause) := by
  rw [outbox_disconnect hup hcollected]
  refine ⟨fun p hp => ?_, fun p hp hopen => .inr ⟨_, answered_mem_closing.mpr
    ⟨⟨p, hp, rfl, hopen⟩, rfl⟩⟩, fun uri id hid => absurd hid (unlisted_disconnect hup cause uri id),
    fun id o ho => ?_, fun _ uri id hid => .inr ⟨_, (released_mem_closing hsingle).mpr
      ⟨⟨uri, hid⟩, rfl⟩⟩⟩
  · rw [disconnect_of_open hup] at hp
    simp at hp
  · obtain ⟨⟨uri, hid⟩, -⟩ := (released_mem_closing hsingle).mp ho
    exact ⟨uri, hid, unlisted_disconnect hup cause uri⟩

end Relay

namespace Engine

variable {whole : Prop} {r r' : Relay} {W W' : Nat → Want → Prop} {fx : List Effect}
variable {id seq : Nat} {command : String}

/-- **The two accounts agree**: the relay's, and the calls'. -/
structure Accounted (whole : Prop) (r : Relay) (W : Nat → Want → Prop) : Prop where
  asked : ∀ id seq command, W id (.response seq command) →
    ⟨seq, command, false⟩ ∈ r.link.pending
  pending : ∀ p ∈ r.link.pending, p.settled = false → ∃ id, W id (.response p.seq p.command)
  listed : ∀ uri id, r.Listed uri id → W id .diagnostics
  once : ∀ uri uri' id, r.Listed uri id → r.Listed uri' id → uri = uri'
  whole : whole → ∀ id, W id .diagnostics → ∃ uri, r.Listed uri id

/-- What was accounted for and is heeded leaves the accounts agreeing. -/
theorem Accounted.heed (h : Accounted whole r W) (haccounts : Relay.Accounts whole fx r r') :
    Accounted whole r' fun i w => W i w ∧ ¬ w.Met fx i where
  asked i seq command hw :=
    (haccounts.told _ (h.asked i seq command hw.1) rfl).resolve_right hw.2
  pending p hp hopen := by
    obtain ⟨hp, hunmet⟩ := haccounts.kept p hp
    obtain ⟨i, hi⟩ := h.pending p hp hopen
    exact ⟨i, hi, fun ⟨o, ho⟩ => hunmet o ho⟩
  listed uri i hi := by
    have hbefore := haccounts.listed uri i hi
    refine ⟨h.listed uri i hbefore, fun ⟨o, ho⟩ => ?_⟩
    obtain ⟨uri', hi', hnone⟩ := haccounts.released i o ho
    exact hnone i (h.once uri uri' i hbefore hi' ▸ hi)
  once uri uri' i hi hi' :=
    h.once uri uri' i (haccounts.listed uri i hi) (haccounts.listed uri' i hi')
  whole hw i hi := by
    obtain ⟨uri, hlisted⟩ := h.whole hw i hi.1
    exact ⟨uri, (haccounts.whole hw uri i hlisted).resolve_right hi.2⟩

/-- What the accounts are about is all that matters. -/
theorem Accounted.of_same (h : Accounted whole r W) (hpending : r'.link.pending = r.link.pending)
    (hlisted : ∀ uri i, r'.Listed uri i ↔ r.Listed uri i) (hW : ∀ i w, W' i w ↔ W i w) :
    Accounted whole r' W' := by
  obtain rfl : W' = W := funext fun i => funext fun w => propext (hW i w)
  exact ⟨by rw [hpending]; exact h.asked, by rw [hpending]; exact h.pending,
    fun uri i hi => h.listed uri i ((hlisted uri i).mp hi),
    fun uri uri' i hi hi' => h.once uri uri' i ((hlisted uri i).mp hi) ((hlisted uri' i).mp hi'),
    fun hw i hi => (h.whole hw i hi).imp fun uri => (hlisted uri i).mpr⟩

/-- A command is written, by a call that is to wait for its response unless it
is settled. -/
theorem Accounted.enter (id : Nat) (settled : Bool) (h : Accounted whole r W)
    (hpending : r'.link.pending = r.link.pending ++ [⟨seq, command, settled⟩])
    (hlisted : ∀ uri i, r'.Listed uri i ↔ r.Listed uri i)
    (hW : ∀ i w, W' i w ↔ W i w ∨ i = id ∧ settled = false ∧ w = .response seq command) :
    Accounted whole r' W' where
  asked i s name hi := by
    rw [hpending]
    rcases (hW i _).mp hi with hi | ⟨-, hopen, heq⟩
    · exact List.mem_append_left _ (h.asked i s name hi)
    · cases heq
      exact List.mem_append_right _ (by simp [hopen])
  pending p hp hopen := by
    rw [hpending] at hp
    rcases List.mem_append.mp hp with hp | hp
    · exact (h.pending p hp hopen).imp fun i hi => (hW i _).mpr (.inl hi)
    · cases List.mem_singleton.mp hp
      exact ⟨id, (hW id _).mpr (.inr ⟨rfl, hopen, rfl⟩)⟩
  listed uri i hi := (hW i _).mpr (.inl (h.listed uri i ((hlisted uri i).mp hi)))
  once uri uri' i hi hi' := h.once uri uri' i ((hlisted uri i).mp hi) ((hlisted uri' i).mp hi')
  whole hw i hi := by
    rcases (hW i _).mp hi with hi | ⟨-, -, heq⟩
    · exact (h.whole hw i hi).imp fun uri => (hlisted uri i).mpr
    · cases heq

/-- A command is settled, or taken off the list; the one call that waited for
it waits no more. -/
theorem Accounted.settle (seq : Nat) (h : Accounted whole r W)
    (hsub : ∀ p ∈ r'.link.pending, p.settled = false → p ∈ r.link.pending ∧ p.seq ≠ seq)
    (hkeep : ∀ p ∈ r.link.pending, p.settled = false → p.seq ≠ seq → p ∈ r'.link.pending)
    (hlisted : ∀ uri i, r'.Listed uri i ↔ r.Listed uri i)
    (hW : ∀ i w, W' i w ↔ W i w ∧ ∀ command, w ≠ .response seq command) :
    Accounted whole r' W' where
  asked i s name hi := by
    obtain ⟨hi, hne⟩ := (hW i _).mp hi
    refine hkeep _ (h.asked i s name hi) rfl fun heq => hne name ?_
    rw [← heq]
  pending p hp hopen := by
    obtain ⟨hp, hne⟩ := hsub p hp hopen
    refine (h.pending p hp hopen).imp fun i hi => (hW i _).mpr ⟨hi, fun command heq => ?_⟩
    cases heq
    exact hne rfl
  listed uri i hi := (hW i _).mpr ⟨h.listed uri i ((hlisted uri i).mp hi), by simp⟩
  once uri uri' i hi hi' := h.once uri uri' i ((hlisted uri i).mp hi) ((hlisted uri' i).mp hi')
  whole hw i hi := (h.whole hw i ((hW i _).mp hi).1).imp fun uri => (hlisted uri i).mpr

/-- A call that waited for nothing waits for diagnostics. -/
theorem Accounted.enlist (uri : String) (h : Accounted whole r W) (hfree : ∀ w, ¬ W id w)
    (hpending : r'.link.pending = r.link.pending)
    (hlisted : ∀ u i, r'.Listed u i ↔ r.Listed u i ∨ u = uri ∧ i = id)
    (hW : ∀ i w, W' i w ↔ W i w ∨ i = id ∧ w = .diagnostics) : Accounted whole r' W' where
  asked i seq command hi := by
    rw [hpending]
    exact h.asked i seq command (((hW i _).mp hi).resolve_right (by simp))
  pending p hp hopen := by
    rw [hpending] at hp
    exact (h.pending p hp hopen).imp fun i hi => (hW i _).mpr (.inl hi)
  listed u i hi := by
    refine (hW i _).mpr ?_
    exact ((hlisted u i).mp hi).imp (h.listed u i) fun heq => ⟨heq.2, rfl⟩
  once u u' i hi hi' := by
    -- a call that waited for nothing was listed nowhere
    rcases (hlisted u i).mp hi with hi | ⟨rfl, rfl⟩ <;>
      rcases (hlisted u' i).mp hi' with hi' | ⟨rfl, heq⟩
    · exact h.once u u' i hi hi'
    · exact absurd (heq ▸ h.listed u i hi) (hfree _)
    · exact absurd (h.listed u' i hi') (hfree _)
    · rfl
  whole hw i hi := by
    rcases (hW i _).mp hi with hi | ⟨rfl, -⟩
    · exact (h.whole hw i hi).imp fun u hu => (hlisted u i).mpr (.inl hu)
    · exact ⟨uri, (hlisted uri i).mpr (.inr ⟨rfl, rfl⟩)⟩

/-- A call waits for diagnostics no more. -/
theorem Accounted.delist (id : Nat) (h : Accounted whole r W)
    (hpending : r'.link.pending = r.link.pending)
    (hlisted : ∀ u i, r'.Listed u i ↔ r.Listed u i ∧ i ≠ id)
    (hW : ∀ i w, W' i w ↔ W i w ∧ (w = .diagnostics → i ≠ id)) : Accounted whole r' W' where
  asked i seq command hi := by
    rw [hpending]
    exact h.asked i seq command ((hW i _).mp hi).1
  pending p hp hopen := by
    rw [hpending] at hp
    exact (h.pending p hp hopen).imp fun i hi => (hW i _).mpr ⟨hi, by simp⟩
  listed u i hi := by
    obtain ⟨hi, hne⟩ := (hlisted u i).mp hi
    exact (hW i _).mpr ⟨h.listed u i hi, fun _ => hne⟩
  once u u' i hi hi' := h.once u u' i ((hlisted u i).mp hi).1 ((hlisted u' i).mp hi').1
  whole hw i hi := by
    obtain ⟨hi, hne⟩ := (hW i _).mp hi
    exact (h.whole hw i hi).imp fun u hu => (hlisted u i).mpr ⟨hu, hne rfl⟩

/-! ## After any deeds -/

variable {t : Terms} {e e' : Engine} {m : Moment} {c c' : Call}

/-- What a relay did is taken in. -/
theorem accounted_takeIn (h : e.Orderly) (hacc : Accounted whole (e.relay 0) (Wants e.calls))
    (haccounts : Relay.Accounts whole r.outbox (e.relay 0) r) :
    Accounted whole ((e.takeIn r).relay 0) (Wants (e.takeIn r).calls) := by
  have hcalls : (e.takeIn r).calls = _ := (heeded_takeIn h.apart r).calls
  rw [relay_takeIn h, hcalls]
  exact (hacc.heed haccounts).of_same rfl (fun _ _ => Iff.rfl) (wants_heed r.outbox)

/-- A call that waited for nothing may come to wait. -/
theorem wants_update_of_free (h : e.Orderly) (hcall : e.call? id = some c) (hfree : ¬ c.Waits)
    (c' : Call) (i : Nat) (w : Want) : Wants (Table.update id (fun _ => c') e.calls) i w ↔
      Wants e.calls i w ∨ i = id ∧ c'.want? = some w := by
  have hnone : ¬ Wants e.calls id w := by
    rw [wants_iff_of_call h.apart.single (mem_of_call? hcall), want?_of_not_waits hfree]
    simp
  rw [wants_update h.apart.single (mem_of_call? hcall)]
  constructor
  · rintro (⟨rfl, hw⟩ | ⟨-, hw⟩)
    · exact .inr ⟨rfl, hw⟩
    · exact .inl hw
  · rintro (hw | ⟨rfl, hw⟩)
    · exact .inr ⟨fun heq => hnone (heq ▸ hw), hw⟩
    · exact .inl ⟨rfl, hw⟩

/-- A call that waits may come to wait no more. -/
theorem wants_update_of_done (h : e.Orderly) (hcall : e.call? id = some c) (hdone : ¬ c'.Waits)
    (i : Nat) (w : Want) : Wants (Table.update id (fun _ => c') e.calls) i w ↔
      i ≠ id ∧ Wants e.calls i w := by
  rw [wants_update h.apart.single (mem_of_call? hcall), want?_of_not_waits hdone]
  simp

/-- A call that is made waits for nothing. -/
theorem wants_spawn (h : e.Orderly) (role : Role) (work : Work) (i : Nat) (w : Want) :
    Wants (e.spawn role work).calls i w ↔ Wants e.calls i w := by
  rw [calls_spawn h.made]
  simp [Wants, Call.want?, or_and_right, exists_or]

/-- A change that does not matter to the relay leaves what the call waits for. -/
theorem Alike.want? (h : Alike c c') : c'.want? = c.want? := by
  cases h with
  | @woken seq ask signal outcome next signal' hstage =>
    cases outcome <;> simp [Call.want?, hstage]
  | marked => rfl
  | gathered parts left outcome stopped cancelled hfree =>
    rw [want?_of_not_waits hfree]
    rfl

/-- A call that gave its command up waits for it no more. -/
theorem accounted_withdraw {ask : Ask} {watch : Watch} {next : Continuation} (h : e.Orderly)
    (hacc : Accounted whole (e.relay 0) (Wants e.calls)) (hcall : e.call? id = some c)
    (hstage : c.stage = .asking 0 seq ask watch none next) (hdone : ¬ c'.Waits) :
    Accounted whole ((e.relay 0).withdraw seq) (Wants (Table.update id (fun _ => c') e.calls)) := by
  have hone := wants_iff_of_call h.apart.single (mem_of_call? hcall)
  have hwant : c.want? = some (.response seq ask.command) :=
    want?_eq_response.mpr ⟨ask, watch, next, hstage, rfl⟩
  refine hacc.settle seq ?_ ?_ (fun _ _ => Iff.rfl) fun i w => ?_
  · intro p hp hopen
    obtain ⟨q, hq, rfl⟩ := List.mem_map.mp hp
    unfold Pending.withdraw at hopen ⊢
    split at hopen
    · cases hopen
    · rename_i hne
      rw [if_neg hne]
      exact ⟨hq, hne⟩
  · intro p hp _ hne
    exact List.mem_map.mpr ⟨p, hp, if_neg hne⟩
  · rw [wants_update_of_done h hcall hdone]
    -- to be another call is to wait for another response
    constructor
    · rintro ⟨hne, hw⟩
      refine ⟨hw, fun command heq => hne ?_⟩
      exact eq_of_wants_response h.apart (heq ▸ hw) ((hone _).mpr hwant)
    · rintro ⟨hw, hne⟩
      refine ⟨fun heq => hne ask.command ?_, hw⟩
      subst heq
      rw [hone, hwant] at hw
      exact (Option.some.inj hw).symm

/-- A command whose outcome is there is waited for by nobody. -/
theorem accounted_unlist {ask : Ask} {watch : Watch} {o : Except Failure Json}
    {next : Continuation} (h : e.Orderly) (hacc : Accounted whole (e.relay 0) (Wants e.calls))
    (hcall : e.call? id = some c) (hstage : c.stage = .asking 0 seq ask watch (some o) next) :
    Accounted whole ((e.relay 0).unlist seq) (Wants e.calls) := by
  refine hacc.settle seq ?_ ?_ (fun _ _ => Iff.rfl) fun i w => ⟨fun hw => ⟨hw, ?_⟩, And.left⟩
  · intro p hp _
    obtain ⟨hp, hne⟩ := List.mem_filter.mp hp
    exact ⟨hp, by simpa using hne⟩
  · intro p hp _ hne
    exact List.mem_filter.mpr ⟨hp, by simpa using hne⟩
  · -- the one call with this number has its outcome
    rintro command rfl
    obtain ⟨d, hd, hwant⟩ := hw
    obtain ⟨ask', watch', next', hstage', -⟩ := want?_eq_response.mp hwant
    have hid : i = id := h.apart.distinct _ hd _ (mem_of_call? hcall) seq
      (by simp [Call.seq?, hstage']) (by simp [Call.seq?, hstage])
    subst hid
    rw [h.apart.eq hd (mem_of_call? hcall), hstage] at hstage'
    cases hstage'

/-- A call that gave up waiting for diagnostics is listed nowhere. -/
theorem accounted_withdrawWaiter {i : Nat} (h : e.Orderly)
    (hacc : Accounted whole (e.relay 0) (Wants e.calls)) (hcall : e.call? id = some c)
    (hstage : c.stage = .checking i none) (hdone : ¬ c'.Waits) :
    Accounted whole ((e.relay 0).withdrawWaiter id)
      (Wants (Table.update id (fun _ => c') e.calls)) := by
  have hwant : ∀ w, Wants e.calls id w ↔ w = .diagnostics := fun w => by
    rw [wants_iff_of_call h.apart.single (mem_of_call? hcall), want?_eq_diagnostics.mpr ⟨i, hstage⟩,
      Option.some.injEq, eq_comm]
  refine hacc.delist id rfl (Relay.listed_withdrawWaiter id) fun i w => ?_
  rw [wants_update_of_done h hcall hdone]
  constructor
  · rintro ⟨hne, hw⟩
    exact ⟨hw, fun _ => hne⟩
  · rintro ⟨hw, hne⟩
    refine ⟨fun heq => ?_, hw⟩
    subst heq
    exact hne ((hwant w).mp hw) rfl

/-- A call that waits for diagnostics is listed after all that the relay did
for it. -/
theorem accounted_await {uri : String} (h : e.Orderly)
    (hacc : Accounted whole (e.relay 0) (Wants e.calls)) (hcall : e.call? id = some c)
    (hfree : ¬ c.Waits) (haccounts : Relay.Accounts whole r.outbox (e.relay 0) r)
    (hrecord : (r.check? uri).isSome) (htaken : (e.takeIn (r.addWaiter uri id)).Orderly) :
    Accounted whole (((e.takeIn (r.addWaiter uri id)).await id (.checking 0 none)).relay 0)
      (Wants ((e.takeIn (r.addWaiter uri id)).await id (.checking 0 none)).calls) := by
  have hcalls : (e.takeIn (r.addWaiter uri id)).calls = _ := (heeded_takeIn h.apart _).calls
  have hrelay := relay_takeIn h (r.addWaiter uri id)
  have hcall' : (e.takeIn (r.addWaiter uri id)).call? id = some c :=
    call?_takeIn h.apart hcall hfree _
  have hheeded := hacc.heed haccounts
  have hfree' : ∀ w, ¬ (Wants e.calls id w ∧ ¬ w.Met r.outbox id) := by
    rintro w ⟨hw, -⟩
    rw [wants_iff_of_call h.apart.single (mem_of_call? hcall), want?_of_not_waits hfree] at hw
    cases hw
  rw [await_of_call hcall']
  change Accounted whole ((e.takeIn (r.addWaiter uri id)).relay 0) _
  refine hheeded.enlist uri hfree' ?_ (fun u i => ?_) fun i w => ?_
  · rw [hrelay]
    rfl
  · rw [hrelay]
    exact Relay.listed_addWaiter hrecord id u i
  · rw [wants_update_of_free htaken hcall' hfree, hcalls]
    refine or_congr (wants_heed r.outbox i w) ?_
    simp [Call.want?, eq_comm]

/-- **Every shift leaves the accounts agreeing.** -/
theorem accounted_shift (hshift : Shift t e e') (h : e.Orderly)
    (hacc : Accounted whole (e.relay 0) (Wants e.calls)) :
    Accounted whole (e'.relay 0) (Wants e'.calls) := by
  have hone : ∀ {id c}, e.call? id = some c → ∀ w, Wants e.calls id w ↔ c.want? = some w :=
    fun hcall => wants_iff_of_call h.apart.single (mem_of_call? hcall)
  cases hshift with
  | served hserves =>
    exact accounted_takeIn h hacc
      ((hserves.abides.of_whole fun _ => trivial).accounts h.collected)
  | made role work =>
    exact hacc.of_same rfl (fun _ _ => Iff.rfl) (wants_spawn h role work)
  | @asked id c a watch outcome hcall hfree =>
    refine hacc.enter id outcome.isSome rfl (fun _ _ => Iff.rfl) fun i w => ?_
    rw [wants_update_of_free h hcall hfree]
    cases outcome <;> simp [Call.want?, eq_comm]
  | @waited id c uri r hcall hfree hseq hup hserves hrecord hsound =>
    exact accounted_await h hacc hcall hfree
      ((hserves.abides.of_whole fun _ => trivial).accounts h.collected) hrecord
      (orderly_takeIn h hsound (hserves.abides.linkSound h.link : r.link.Sound) hserves.abides.last)
  | @withdrew id c seq ask watch next hcall hstage =>
    rw [relay_mapRelay_calls h]
    exact accounted_withdraw h hacc hcall hstage (by simp [Call.Waits])
  | @dropped id c hcall hstage =>
    rw [relay_mapRelay_calls h]
    exact accounted_withdrawWaiter h hacc hcall hstage (by simp [Call.Waits])
  | @left id c seq ask watch o next hcall hstage =>
    rw [relay_mapRelay h]
    exact accounted_unlist h hacc hcall hstage
  | @altered id c c' hcall halike =>
    refine hacc.of_same rfl (fun _ _ => Iff.rfl) fun i w => ?_
    rw [wants_update h.apart.single (mem_of_call? hcall), halike.want?]
    by_cases hid : i = id
    · subst hid
      simp [hone hcall]
    · simp [hid]
  | @ended id c outcome hcall hfree =>
    obtain ⟨handedOut, told, agenda, hfinish, -⟩ := finish_of_call hcall outcome
    rw [hfinish]
    refine hacc.of_same rfl (fun _ _ => Iff.rfl) fun i w => ?_
    rw [wants_erase]
    refine ⟨And.right, fun hw => ⟨?_, hw⟩⟩
    rintro rfl
    rw [hone hcall, want?_of_not_waits hfree] at hw
    cases hw
  | logged => exact hacc
  | timed => exact hacc

/-- Any number of shifts do. -/
theorem accounted_shifts (hshifts : Shifts t e e') (h : e.Orderly)
    (hacc : Accounted whole (e.relay 0) (Wants e.calls)) :
    Accounted whole (e'.relay 0) (Wants e'.calls) :=
  (hshifts.keep (P := fun e => e.Orderly ∧ Accounted whole (e.relay 0) (Wants e.calls))
    (fun _ _ hshift h => ⟨orderly_shift hshift h.1, accounted_shift hshift h.1 h.2⟩) ⟨h, hacc⟩).2

/-- What a deed does to the relay is accounted for, unless a message fails. -/
theorem accounts_does {d : Deed} (hdoes : Does t r d r') (hsound : r.Sound) (hlink : r.link.Sound)
    (hcollected : r.outbox = [])
    (hwhole : whole → ∀ message, d = .plain (.receive message) → (r.receive message).2 = none) :
    Relay.Accounts whole r'.outbox r r' := by
  rcases does_cases hdoes hsound with habides | ⟨-, response, -, -, rfl⟩ | ⟨cause, -, hup, rfl⟩
  · exact (habides.of_whole hwhole).accounts hcollected
  · exact Relay.accounts_resolve hlink hcollected response
  · exact Relay.accounts_disconnect hup hcollected hsound.single cause

/-- **So does every deed.** -/
theorem accounted_perform {d : Deed} (h : m.Orderly) (hmeets : Deed.Meets t m d)
    (hwhole : whole → ∀ r message, t.hears r message → (r.receive message).2 = none)
    (hacc : Accounted whole (m.engine.relay 0) (Wants m.engine.calls)) :
    Accounted whole ((d.perform m).engine.relay 0) (Wants (d.perform m).engine.calls) := by
  rcases perform_cases h hmeets with ⟨r, hdoes, heq⟩ | hshifts
  · rw [heq]
    refine accounted_takeIn h.engine hacc (accounts_does hdoes h.engine.sound h.engine.link
      h.engine.collected fun hw message hd => ?_)
    subst hd
    exact hwhole hw _ message hmeets
  · exact accounted_shifts hshifts h.engine hacc

/-- **The accounts agree after any deeds.** If no message fails, every call that
waits for diagnostics is listed. -/
theorem accounted_work (whole : Prop) (setup : Setup) {deeds : List Deed} (hmeet : Meet t deeds (.new setup))
    (hwhole : whole → ∀ r message, t.hears r message → (r.receive message).2 = none) :
    Accounted whole ((work deeds (.new setup)).engine.relay 0)
      (Wants (work deeds (.new setup)).engine.calls) := by
  have hnew : Accounted whole ((Moment.new setup).engine.relay 0)
      (Wants (Moment.new setup).engine.calls) := by
    have hnone : ∀ i w, ¬ Wants (Moment.new setup).engine.calls i w := by
      rintro i w ⟨c, hc, -⟩
      simp [Moment.new, withRelay, Engine.new] at hc
    refine ⟨fun i _ _ hw => absurd hw (hnone i _), fun p hp => ?_, ?_, ?_,
      fun _ i hw => absurd hw (hnone i _)⟩
    · simp [Moment.new, withRelay, relay, Relay.new] at hp
    · rintro uri i ⟨c, hc, -⟩
      simp [Moment.new, withRelay, relay, Relay.new, Relay.check?] at hc
    · rintro uri uri' i ⟨c, hc, -⟩
      simp [Moment.new, withRelay, relay, Relay.new, Relay.check?] at hc
  exact (work_induction (P := fun m => m.Orderly ∧
      Accounted whole (m.engine.relay 0) (Wants m.engine.calls)) ⟨orderly_new setup, hnew⟩ hmeet
    fun _ _ h hmeets => ⟨orderly_perform h.1 hmeets, accounted_perform h.1 hmeets hwhole h.2⟩).2

end Engine

end LanguageRelay
