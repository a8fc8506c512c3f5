import LanguageRelay.Proofs.Relay.Frames
/-!
# Operations that answer no command

All that an operation of a relay does to its connection, responses and the
closing apart, is to number commands on (`Discreet`): those that await a
response stay listed as they are, and none is answered. That holds whether the
connection is open or closed, so also where what is written is refused.
-/

namespace LanguageRelay

/-- The effect is neither a command nor the outcome of one. -/
def Effect.Aside : Effect → Prop
  | .sent _ | .answered .. => False
  | _ => True

theorem Effect.Said.aside {e : Effect} (h : e.Said) : e.Aside := by
  cases e <;> first | exact h.elim | trivial

namespace Relay

/-- **The operation answers no command**, and numbers on those it writes. -/
structure Discreet (r r' : Relay) : Prop where
  pending : r'.link.pending = r.link.pending
  standing : r'.link.standing = r.link.standing
  numbers : NumbersOn r r'
  unanswered : Adds (fun e => ∀ seq o, e ≠ .answered seq o) r r'

variable {r r' r'' : Relay}

theorem Discreet.closed (h : Discreet r r') : r'.link.closed = r.link.closed :=
  Link.closed_of_standing h.standing

/-! ## The smallest operations -/

theorem Discreet.trans (h : Discreet r r') (h' : Discreet r' r'') : Discreet r r'' where
  pending := h'.pending.trans h.pending
  standing := h'.standing.trans h.standing
  numbers := h.numbers.trans h'.numbers
  unanswered := h.unanswered.trans h'.unanswered

theorem Discreet.of_aside (hlink : r'.link = r.link) (h : Adds Effect.Aside r r') :
    Discreet r r' where
  pending := by rw [hlink]
  standing := by rw [hlink]
  numbers := by
    refine .of_silent (Nat.le_of_eq (by rw [hlink])) (h.mono ?_)
    rintro e he command rfl
    exact he
  unanswered := by
    refine h.mono ?_
    rintro e he seq o rfl
    exact he

/-- Only the connection and the outbox matter. -/
theorem Discreet.of_same (hlink : r'.link = r.link) (houtbox : r'.outbox = r.outbox) :
    Discreet r r' :=
  .of_aside hlink (.of_outbox_eq houtbox)

theorem Discreet.refl (r : Relay) : Discreet r r := .of_same rfl rfl

/-- So they may be the same only at the start. -/
theorem Discreet.since (h : Discreet r' r'') (hlink : r'.link = r.link)
    (houtbox : r'.outbox = r.outbox) : Discreet r r'' :=
  (Discreet.of_same hlink houtbox).trans h

theorem discreet_emit {e : Effect} (h : e.Aside) (r : Relay) : Discreet r (r.emit e) :=
  .of_aside rfl (adds_emit h r)

theorem discreet_log (level : LogLevel) (text : String) (r : Relay) :
    Discreet r (r.log level text) :=
  discreet_emit (e := .logged level text) trivial r

theorem discreet_takeSeq (r : Relay) : Discreet r r.takeSeq where
  pending := rfl
  standing := rfl
  numbers := .of_silent (Nat.le_succ _) (.of_outbox_eq rfl)
  unanswered := .of_outbox_eq rfl

/-- **A command that nobody waits on is numbered on**, whether it is written or
not. -/
theorem discreet_notify (name : String) (arguments : Json) (r : Relay) :
    Discreet r (r.notify name arguments).1 := by
  cases htaken : r.link.refusal? with
  | some cause =>
    rw [notify_of_refused htaken]
    exact discreet_takeSeq r
  | none =>
    rw [notify_of_taken htaken]
    exact ⟨rfl, rfl, numbersOn_sent name arguments r, adds_emit (by simp) r.takeSeq⟩

/-! ## Operations -/

/-- **Documents, their checks and what is said answer no command.** -/
theorem frame_discreet : Frame Discreet where
  trans := Discreet.trans
  records _ _ _ _ _ := .of_same rfl rfl
  said he r := discreet_emit he.aside r
  notify := discreet_notify

theorem discreet_requestCheck (uri : String) (waiter : Nat) (r : Relay) :
    Discreet r (r.requestCheck uri waiter).1 :=
  frame_discreet.requestCheck uri waiter r

theorem discreet_disarm (uri : String) (r : Relay) : Discreet r (r.disarm uri) := by
  unfold disarm
  split
  · exact .refl r
  · exact .of_aside rfl ⟨[_], rfl, by simp [Effect.Aside]⟩

theorem discreet_schedule (uri : String) (r : Relay) : Discreet r (r.schedule uri) :=
  (discreet_disarm uri r).trans (.of_aside rfl ⟨[_], rfl, by simp [Effect.Aside]⟩)

theorem discreet_fire (uri : String) (timer : Nat) (r : Relay) :
    Discreet r (r.fire uri timer).1 := by
  unfold fire
  split <;> exact .of_same rfl rfl

/-- **A message that is no response answers no command.** -/
theorem discreet_receive {message : Json} (r : Relay)
    (h : ∀ response, Service.Message.ofJson message ≠ .ok (.response response)) :
    Discreet r (r.receive message).1 :=
  frame_discreet.receive r h

/-! ## What the editor announces -/

theorem discreet_autoSchedule (uri : String) {done : Relay × Option Failure}
    (h : Discreet r done.1) : Discreet r (autoSchedule uri done).1 := by
  obtain ⟨r', failure⟩ := done
  cases failure with
  | some e => exact h
  | none =>
    simp only [autoSchedule]
    split
    · exact h.trans (discreet_schedule uri r')
    · exact h

theorem discreet_didOpen (uri languageId : String) (version : Int) (text : String) (r : Relay) :
    Discreet r (r.didOpen uri languageId version text).1 :=
  discreet_autoSchedule uri (frame_discreet.openDocument uri languageId version text r)

theorem discreet_didChange (uri : String) (version : Int) (changes : List TextChange) (r : Relay) :
    Discreet r (r.didChange uri version changes).1 :=
  discreet_autoSchedule uri (frame_discreet.changeDocument uri version changes r)

theorem discreet_didClose (uri : String) (r : Relay) : Discreet r (r.didClose uri).1 := by
  refine .trans ?_ (frame_discreet.didClose uri r)
  cases hopen : r.session? uri with
  | none =>
    rw [closeDocument_of_not_open hopen]
    exact .refl r
  | some s =>
    have hdisarmed : Discreet r (disarm uri { r with sessions := Table.erase uri r.sessions }) :=
      .since (discreet_disarm uri _) rfl rfl
    exact hdisarmed.trans (frame_discreet.closeDocument hopen)

theorem discreet_shutdown (r : Relay) : Discreet r r.shutdown.1 := frame_discreet.shutdown r

end Relay

end LanguageRelay
