import LanguageRelay.Proofs.Checks.Steps
import LanguageRelay.Proofs.Relay.Discretion
/-!
# The timers of a relay

What a relay has to do with timers is little: the timer of each document, the
last one given out, how long checks are held back, and what it did to timers
that has not been passed on (`Relay.timing`). Scheduling, closing a document
and the end of the connection are all that changes any of it, besides the
timers that come due. Every other operation leaves it as it is.
-/

namespace LanguageRelay

/-- A timer was set, or taken back. -/
def Effect.ofTimers : Effect → Bool
  | .armed .. | .disarmed .. => true
  | _ => false

theorem Effect.Said.not_ofTimers {e : Effect} (h : e.Said) : e.ofTimers = false := by
  cases e <;> first | exact h.elim | rfl

namespace Relay

/-- What a relay has to do with timers. -/
structure Timing where
  /-- The timer of each document that has one. -/
  scheduled : List (String × Nat)
  /-- The last timer given out. -/
  last : Nat
  delay : Int
  /-- The timers set and taken back that this has not passed on yet. -/
  owed : List Effect

/-- The part of a relay that timers are about. -/
def timing (r : Relay) : Timing :=
  ⟨r.scheduled, r.lastTimer, r.setup.delay.nanos, r.outbox.filter Effect.ofTimers⟩

variable {r r' : Relay} {uri : String}

/-! ## What has nothing to do with timers -/

theorem timing_emit {e : Effect} (h : e.ofTimers = false) (r : Relay) :
    (r.emit e).timing = r.timing := by
  simp [timing, emit, h]

theorem timing_notify (name : String) (arguments : Json) (r : Relay) :
    (r.notify name arguments).1.timing = r.timing := by
  cases htaken : r.link.refusal? with
  | none =>
    rw [notify_of_taken htaken]
    exact timing_emit rfl r.takeSeq
  | some cause =>
    rw [notify_of_refused htaken]
    rfl

/-- **Documents, their checks and what is said have nothing to do with
timers.** -/
theorem frame_timing : Frame fun r r' => r'.timing = r.timing where
  trans h h' := h'.trans h
  records _ _ _ _ _ := rfl
  said he r := timing_emit he.not_ofTimers r
  notify := timing_notify

@[simp] theorem timing_ask (name : String) (arguments : Json) (r : Relay) :
    (r.ask name arguments).1.timing = r.timing := by
  unfold ask
  simp only []
  split
  · rfl
  · split
    · rfl
    · exact timing_emit rfl (r.takeSeq.expect r.nextSeq name)

theorem timing_resolve (response : Service.Response) (r : Relay) :
    (r.resolve response).timing = r.timing := by
  unfold resolve
  split
  · exact timing_emit rfl r
  · simp only []
    split
    · rfl
    · exact timing_emit rfl (r.unlist _)

theorem timing_receive (message : Json) (r : Relay) :
    (r.receive message).1.timing = r.timing := by
  by_cases h : ∃ response, Service.Message.ofJson message = .ok (.response response)
  · obtain ⟨response, hresponse⟩ := h
    simp only [receive, hresponse]
    exact timing_resolve response r
  · exact frame_timing.receive r fun response hresponse => h ⟨response, hresponse⟩

/-! ## What sets timers and takes them back -/

/-- The effect that the timer of a document is taken back, if it has one. -/
def disarms (uri : String) (scheduled : List (String × Nat)) : List Effect :=
  ((Table.get? uri scheduled).map (Effect.disarmed uri)).toList

theorem timing_disarm (uri : String) (r : Relay) :
    (r.disarm uri).timing =
      { r.timing with
        scheduled := Table.erase uri r.scheduled
        owed := r.timing.owed ++ disarms uri r.scheduled } := by
  unfold disarm disarms
  cases hget : Table.get? uri r.scheduled with
  | none => simp [timing, Table.erase_of_none hget]
  | some timer => simp [timing, emit, Effect.ofTimers]

theorem timing_schedule (uri : String) (r : Relay) :
    (r.schedule uri).timing =
      { r.timing with
        scheduled := Table.put uri (r.lastTimer + 1) (Table.erase uri r.scheduled)
        last := r.lastTimer + 1
        owed := r.timing.owed ++ disarms uri r.scheduled ++ [.armed uri (r.lastTimer + 1)] } := by
  have hdisarm := timing_disarm uri r
  have hlast : (r.disarm uri).lastTimer = r.lastTimer := congrArg Timing.last hdisarm
  simp only [timing, Timing.mk.injEq] at hdisarm
  simp [schedule, timing, emit, Effect.ofTimers, hlast, hdisarm]

/-- A closed document has no timer. -/
theorem timing_didClose {s : Session} (hopen : r.session? uri = some s) :
    (r.didClose uri).1.timing = (r.disarm uri).timing := by
  have hclosed := (frame_timing.didClose uri r).trans (frame_timing.closeDocument hopen)
  rw [hclosed, timing_disarm, timing_disarm]
  rfl

/-- **The end of the connection takes every timer back.** -/
theorem timing_disconnect (hup : r.link.closed = none) (cause : Closure) :
    (r.disconnect cause).timing =
      { r.timing with
        scheduled := []
        owed := r.timing.owed ++ r.scheduled.map fun x => .disarmed x.1 x.2 } := by
  have hnotice : (rejectionNotice cause r.link.pending).filter Effect.ofTimers = [] := by
    unfold rejectionNotice
    split <;> rfl
  have hrejections : (rejections cause r.link.pending).filter Effect.ofTimers = [] := by
    refine List.filter_eq_nil_iff.mpr fun e he => ?_
    obtain ⟨p, -, rfl⟩ := List.mem_map.mp he
    simp [Effect.ofTimers]
  have hreleases : ∀ outcome ws, (releases outcome ws).filter Effect.ofTimers = [] := by
    intro outcome ws
    refine List.filter_eq_nil_iff.mpr fun e he => ?_
    obtain ⟨w, -, rfl⟩ := List.mem_map.mp he
    simp [Effect.ofTimers]
  have htaken : (r.scheduled.map fun x => Effect.disarmed x.1 x.2).filter Effect.ofTimers =
      r.scheduled.map fun x => .disarmed x.1 x.2 := by
    rw [List.filter_eq_self]
    intro e he
    obtain ⟨x, -, rfl⟩ := List.mem_map.mp he
    rfl
  rw [disconnect_of_open hup]
  simp [timing, List.filter_append, hnotice, hrejections, hreleases, htaken, Effect.ofTimers]

/-- A timer that comes due is the document's no more. -/
theorem timing_fire (uri : String) (timer : Nat) (r : Relay) :
    (r.fire uri timer).1.timing =
      { r.timing with
        scheduled := if Table.get? uri r.scheduled = some timer then Table.erase uri r.scheduled
          else r.scheduled } := by
  unfold fire
  split <;> rfl

end Relay

end LanguageRelay
