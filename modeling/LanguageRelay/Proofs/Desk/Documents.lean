import LanguageRelay.Engine.Calls
import LanguageRelay.Proofs.Relay.Files
/-!
# What leaves the documents alone

No document of a relay is opened, changed or closed by what is done for calls,
but by a handler that is served for that. Everything else keeps the documents of
all relays as they are (`KeepsDocuments`).
-/

namespace LanguageRelay

namespace Relay

theorem sessions_shutdown (r : Relay) : r.shutdown.1.sessions = r.sessions := by
  have hnotify := sessions_notify Service.exitName .null r
  unfold shutdown
  split
  · rfl
  · split
    · rename_i heq
      rwa [heq] at hnotify
    · rename_i heq
      rwa [heq] at hnotify

theorem sessions_disconnect (cause : Closure) (r : Relay) :
    (r.disconnect cause).sessions = r.sessions := by
  cases hup : r.link.closed with
  | some first => simp [disconnect, hup]
  | none =>
    rw [disconnect_of_open hup]

end Relay

namespace Engine

/-- The documents of all relays are as they were. -/
def KeepsDocuments (e e' : Engine) : Prop := ∀ i, (e'.relay i).sessions = (e.relay i).sessions

variable {e e' e'' : Engine} {id : Nat} {handler : Handler}

theorem KeepsDocuments.refl (e : Engine) : KeepsDocuments e e := fun _ => rfl

theorem KeepsDocuments.trans (h : KeepsDocuments e e') (h' : KeepsDocuments e' e'') :
    KeepsDocuments e e'' := fun i => (h' i).trans (h i)

/-- The relays are as they were. -/
theorem KeepsDocuments.of_relays (hrelays : e'.relays = e.relays) (hsetup : e'.setup = e.setup) :
    KeepsDocuments e e' := fun i => by rw [relay, relay, hrelays, hsetup]

theorem keepsDocuments_setRelay (i : Nat) {r : Relay} (h : r.sessions = (e.relay i).sessions) :
    KeepsDocuments e (e.setRelay i r) := by
  intro j
  by_cases hj : i = j ∧ i < e.relays.length
  · obtain ⟨rfl, hlt⟩ := hj
    have hset : (e.setRelay i r).relay i = r := by simp [setRelay, relay, hlt]
    rw [hset, h]
  · -- another relay, or one that was never made
    have hsame : (e.relays.set i r)[j]? = e.relays[j]? := by
      rw [List.getElem?_set]
      by_cases hij : i = j
      · subst hij
        simp only [true_and] at hj
        simp [hj]
      · simp [hij]
    change (((e.relays.set i r)[j]?).getD _).sessions = _
    rw [hsame]
    rfl

theorem keepsDocuments_leave (id i seq : Nat) (e : Engine) : KeepsDocuments e (e.leave id i seq) :=
  (keepsDocuments_setRelay i (r := (e.relay i).unlist seq) rfl).trans (.of_relays rfl rfl)

theorem keepsDocuments_giveUp (id i seq : Nat) (a : Ask) (why : Ending) (next : Continuation)
    (e : Engine) : KeepsDocuments e (e.giveUp id i seq a why next) :=
  (keepsDocuments_setRelay i (r := (e.relay i).withdraw seq) rfl).trans (.of_relays rfl rfl)

end Engine

end LanguageRelay
