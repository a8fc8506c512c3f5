import LanguageRelay.Proofs.Engine.Outcomes
/-!
# A connection without documents

Requests alone need a relay without documents: the connection is all there is
to it (`Relay.upon`). What comes in over the connection gives outcomes to the
commands listed there, and takes them off the list: which command gets which
outcome is the *tidings* (`Tidings`), and each operation is described by the
tidings it brings.

No message makes such a relay fail (`receive_upon`).
-/

namespace LanguageRelay

/-- The response to the command with a number that a message is, if it is one. -/
def Service.responseTo? (message : Json) (seq : Nat) : Option Service.Response :=
  match Service.Message.ofJson message with
  | .ok (.response r) => if r.requestSeq = seq then some r else none
  | _ => none

/-- Which commands get an outcome, by number and name. -/
abbrev Tidings := Nat → String → Option (Except Failure Json)

namespace Tidings

/-- A message tells of the command it is a response to. -/
def ofMessage (message : Json) : Tidings :=
  fun seq command => (Service.responseTo? message seq).map (Relay.outcomeOf command)

/-- The closing of the connection tells of all. -/
def ofClosure (cause : Closure) : Tidings := fun _ _ => some (.error (.closed cause))

end Tidings

namespace Relay

/-- A relay over a connection, without documents. -/
def upon (setup : Setup) (link : Link) : Relay := { Relay.new setup with link }

/-- The outcome the effects give to a number. -/
def given? (seq : Nat) (fx : List Effect) : Option (Except Failure Json) :=
  fx.findSome? fun effect =>
    match effect with
    | .answered s o => if s = seq then some o else none
    | _ => none

/-- **The effects bring the tidings**: every command listed and not settled is
given the outcome, and every command without one stays listed. -/
structure Brings (tidings : Tidings) (link link' : Link) (fx : List Effect) : Prop where
  ofLink : ∀ effect ∈ fx, effect.OfLink
  last : link.last ≤ link'.last
  sub : link'.pending.Sublist link.pending
  told : ∀ p ∈ link.pending, p.settled = false → given? p.seq fx = tidings p.seq p.command
  kept : ∀ p ∈ link.pending, tidings p.seq p.command = none → p ∈ link'.pending
  shut : link'.closed.isSome → link'.pending = []
  limit : link'.limit = link.limit

variable {setup : Setup} {link : Link}

/-- Without an outcome among the effects, no number is given one. -/
theorem given?_of_forall {seq : Nat} {fx : List Effect}
    (h : ∀ s o, Effect.answered s o ∉ fx) : given? seq fx = none := by
  refine List.findSome?_eq_none_iff.mpr fun effect heffect => ?_
  cases effect with
  | answered s o => exact absurd heffect (h s o)
  | _ => rfl

/-- A command nobody waits on brings no tidings. -/
theorem notify_upon (setup : Setup) (hshut : link.closed.isSome → link.pending = []) (name : String)
    (arguments : Json) :
    ∃ link' fx, ((upon setup link).notify name arguments).1 =
      { upon setup link' with outbox := fx } ∧ Brings (fun _ _ => none) link link' fx := by
  cases htaken : link.refusal? with
  | some cause =>
    refine ⟨{ link with last := link.last + 1 }, [], ?_, ⟨by simp, Nat.le_succ _, .refl _,
      fun _ _ _ => rfl, fun p hp _ => hp, hshut, rfl⟩⟩
    simp [notify, takeSeq, nextSeq, upon, htaken, new]
  | none =>
    refine ⟨{ link with last := link.last + 1 }, [.sent ⟨link.last + 1, name, arguments⟩], ?_,
      by simp [Effect.OfLink], Nat.le_succ _, .refl _, fun _ _ _ => rfl, fun p hp _ => hp,
      hshut, rfl⟩
    simp [notify, takeSeq, nextSeq, upon, htaken, emit, new]

/-- A command that is refused takes a number and fails. -/
theorem ask_upon_of_refused {cause : Closure} (hrefused : link.refusal? = some cause)
    (hnumbered : ∀ p ∈ link.pending, p.seq ≤ link.last) (name : String) (arguments : Json) :
    (upon setup link).ask name arguments =
      (upon setup { link with last := link.last + 1 }, .error (.closed cause)) := by
  have hfree : ∀ p ∈ link.pending, p.seq ≠ link.last + 1 := by
    intro p hp
    have hle := hnumbered p hp
    omega
  simp [ask, takeSeq, nextSeq, upon, hrefused, new]
  exact fun p hp => decide_eq_false (hfree p hp)

/-- Otherwise it is written and listed. -/
theorem ask_upon_of_taken (htaken : link.refusal? = none)
    (hnumbered : ∀ p ∈ link.pending, p.seq ≤ link.last) (name : String) (arguments : Json) :
    (upon setup link).ask name arguments =
      ({ upon setup
          { link with
            last := link.last + 1
            pending := link.pending ++ [⟨link.last + 1, name, false⟩] } with
        outbox := [.sent ⟨link.last + 1, name, arguments⟩] }, .ok (link.last + 1)) := by
  have hfree : ∀ p ∈ link.pending, p.seq ≠ link.last + 1 := by
    intro p hp
    have hle := hnumbered p hp
    omega
  simp [ask, takeSeq, nextSeq, upon, htaken, new, expect, emit]
  exact fun p hp => decide_eq_false (hfree p hp)

/-- An event tells a relay without documents nothing. -/
theorem handleEvent_upon (event : Service.Event) :
    (upon setup link).handleEvent event = (upon setup link, none) := by
  rw [handleEvent_eq]
  cases newsOf? event with
  | none => rfl
  | some note =>
    cases note with
    | part file category items => rfl
    | completed seq => rfl

/-- One number is listed once. -/
theorem eq_of_seq (hnodup : (link.pending.map Pending.seq).Nodup) {p q : Pending}
    (hp : p ∈ link.pending) (hq : q ∈ link.pending) (h : p.seq = q.seq) : p = q :=
  List.inj_on_of_nodup_map hnodup hp hq h

/-- A response settles the command it is for. -/
theorem resolve_upon (setup : Setup) (hshut : link.closed.isSome → link.pending = [])
    (hnodup : (link.pending.map Pending.seq).Nodup) {response : Service.Response} {message : Json}
    (hmessage : Service.Message.ofJson message = .ok (.response response)) :
    ∃ link' fx, (upon setup link).resolve response = { upon setup link' with outbox := fx } ∧
      Brings (.ofMessage message) link link' fx ∧
      link'.pending = link.pending.filter fun p => (Service.responseTo? message p.seq).isNone := by
  have hto : ∀ seq : Nat, Service.responseTo? message seq =
      if response.requestSeq = seq then some response else none := by
    intro seq
    simp [Service.responseTo?, hmessage]
  unfold resolve
  cases hfound : (upon setup link).pendingFor? response.requestSeq with
  | none =>
    have hnone : ∀ p ∈ link.pending, Service.responseTo? message p.seq = none := by
      intro p hp
      have hne := List.find?_eq_none.mp hfound p hp
      rw [hto, if_neg]
      simpa [eq_comm] using hne
    refine ⟨link, [.logged .warning (strayResponse response)], by simp [upon, log, emit, new],
      ⟨by simp [Effect.OfLink], Nat.le_refl _, .refl _, fun p hp _ => ?_, fun p hp _ => hp, hshut,
        rfl⟩,
      ?_⟩
    · simp [Tidings.ofMessage, hnone p hp, given?]
    · exact (List.filter_eq_self.mpr fun p hp => by simp [hnone p hp]).symm
  | some p =>
    have hmem : p ∈ link.pending := List.mem_of_find?_eq_some hfound
    have hseq : (p.seq : Int) = response.requestSeq := by simpa using List.find?_some hfound
    have hself : Service.responseTo? message p.seq = some response := by rw [hto, if_pos hseq.symm]
    have hother : ∀ seq : Nat, seq ≠ p.seq → Service.responseTo? message seq = none := by
      intro seq hne
      rw [hto, if_neg]
      omega
    have hfilter : (link.pending.filter fun q => q.seq ≠ p.seq) =
        link.pending.filter fun q => (Service.responseTo? message q.seq).isNone := by
      refine List.filter_congr fun q _ => ?_
      by_cases hq : q.seq = p.seq
      · simp [hq, hself]
      · simp [hq, hother q.seq hq]
    refine ⟨{ link with pending := link.pending.filter fun q => q.seq ≠ p.seq },
      if p.settled then [] else [.answered p.seq (outcomeOf p.command response)], ?_,
      ⟨?_, Nat.le_refl _, List.filter_sublist, fun q hq hopen => ?_, fun q hq hnone => ?_, ?_,
        rfl⟩, hfilter⟩
    · cases hsettled : p.settled <;> simp [hsettled, upon, unlist, emit, new]
    · cases p.settled <;> simp [Effect.OfLink]
    · by_cases heq : q.seq = p.seq
      · cases eq_of_seq hnodup hq hmem heq
        simp [hopen, given?, Tidings.ofMessage, hself]
      · cases p.settled <;>
          simp [given?, Tidings.ofMessage, hother q.seq heq, Ne.symm heq]
    · have hto : Service.responseTo? message q.seq = none := by
        simpa [Tidings.ofMessage] using hnone
      rw [hfilter]
      exact List.mem_filter.mpr ⟨hq, by simp [hto]⟩
    · intro hclosed
      simp [hshut hclosed]

/-- What is logged or passed on gives no outcome. -/
theorem brings_noted {message : Json} {effect : Effect}
    (hshut : link.closed.isSome → link.pending = [])
    (hnone : ∀ seq, Service.responseTo? message seq = none) (hlink : effect.OfLink)
    (hunanswered : ∀ s o, effect ≠ .answered s o) :
    Brings (.ofMessage message) link link [effect] where
  ofLink := by simpa using hlink
  last := Nat.le_refl _
  sub := .refl _
  told p _ _ := by
    rw [given?_of_forall fun s o h => hunanswered s o (List.mem_singleton.mp h).symm]
    simp [Tidings.ofMessage, hnone]
  kept p hp _ := hp
  shut := hshut
  limit := rfl

/-- **A message settles the command it is a response to, and no other**; it
makes nothing fail. -/
theorem receive_upon (setup : Setup) (hshut : link.closed.isSome → link.pending = [])
    (hnodup : (link.pending.map Pending.seq).Nodup) (message : Json) :
    ∃ link' fx, (upon setup link).receive message = ({ upon setup link' with outbox := fx }, none) ∧
      Brings (.ofMessage message) link link' fx ∧
      link'.pending = link.pending.filter fun p => (Service.responseTo? message p.seq).isNone := by
  unfold receive
  cases hmessage : Service.Message.ofJson message with
  | error fault =>
    have hnone : ∀ seq, Service.responseTo? message seq = none := by
      simp [Service.responseTo?, hmessage]
    refine ⟨link, [.logged .error ("dropping tsserver message: " ++ fault.message)],
      by simp [upon, log, emit, new], brings_noted hshut hnone trivial (by simp), by simp [hnone]⟩
  | ok received =>
    cases received with
    | response response =>
      obtain ⟨link', fx, hresolve, hbrings, hpending⟩ := resolve_upon setup hshut hnodup hmessage
      exact ⟨link', fx, by simp only [hresolve], hbrings, hpending⟩
    | event event =>
      have hnone : ∀ seq, Service.responseTo? message seq = none := by
        simp [Service.responseTo?, hmessage]
      refine ⟨link, [.noticed event], ?_, brings_noted hshut hnone trivial (by simp),
        by simp [hnone]⟩
      simp only [handleEvent_upon]
      simp [upon, emit, new]

/-- The outcome that the commands rejected are given. -/
theorem given?_rejections (cause : Closure) {pending : List Pending} {p : Pending}
    (hp : p ∈ pending) (hopen : p.settled = false) :
    given? p.seq (rejections cause pending) = some (.error (.closed cause)) := by
  induction pending with
  | nil => simp at hp
  | cons q rest ih =>
    by_cases hq : q.settled = false ∧ q.seq = p.seq
    · simp [rejections, given?, hq.1, hq.2]
    · have hrest : p ∈ rest := by
        rcases List.mem_cons.mp hp with rfl | hrest
        · exact absurd ⟨hopen, rfl⟩ hq
        · exact hrest
      have hskip : given? p.seq (rejections cause (q :: rest)) =
          given? p.seq (rejections cause rest) := by
        cases hsettled : q.settled with
        | true => simp [rejections, hsettled]
        | false =>
          have hne : q.seq ≠ p.seq := fun h => hq ⟨hsettled, h⟩
          simp [rejections, given?, hsettled, hne]
      rw [hskip, ih hrest]

/-- **The closing of the connection is told to every command listed.** -/
theorem disconnect_upon (setup : Setup) (hshut : link.closed.isSome → link.pending = [])
    (cause : Closure) :
    ∃ link' fx, (upon setup link).disconnect cause = { upon setup link' with outbox := fx } ∧
      Brings (.ofClosure cause) link link' fx := by
  cases hclosed : link.closed with
  | some first =>
    have hpending := hshut (by simp [hclosed])
    exact ⟨link, [], by simp [disconnect, upon, hclosed, new],
      ⟨by simp, Nat.le_refl _, .refl _, by simp [hpending], by simp [hpending], hshut,
        rfl⟩⟩
  | none =>
    refine ⟨{ link with closed := some cause, pending := [] },
      rejectionNotice cause link.pending ++ (rejections cause link.pending ++ [.closed cause]), ?_,
      ⟨?_, Nat.le_refl _, List.nil_sublist _, fun p hp hopen => ?_, by simp [Tidings.ofClosure],
        fun _ => rfl, rfl⟩⟩
    · rw [disconnect_of_open hclosed]
      simp [upon, new, releases, mapChecks]
    · intro effect heffect
      simp only [List.mem_append, List.mem_singleton] at heffect
      rcases heffect with h | h | rfl
      · unfold rejectionNotice at h
        split at h
        · simp at h
        · rw [List.mem_singleton.mp h]
          trivial
      · obtain ⟨p, -, rfl⟩ := List.mem_map.mp h
        trivial
      · trivial
    · have hnotice : given? p.seq (rejectionNotice cause link.pending) = none := by
        refine given?_of_forall fun s o h => ?_
        unfold rejectionNotice at h
        split at h <;> simp at h
      have hgiven := given?_rejections cause hp hopen
      unfold given? at hnotice hgiven ⊢
      rw [List.findSome?_append, List.findSome?_append, hnotice, hgiven]
      rfl

end Relay

end LanguageRelay
