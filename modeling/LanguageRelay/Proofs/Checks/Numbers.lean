import LanguageRelay.Proofs.Checks.Steps
/-!
# The numbers of commands, along a run

Every command that is written takes the next number, whatever it is for. So
the commands of a run have ascending numbers, and none is above the last one
given out (`numbered_run`).
-/

namespace LanguageRelay

namespace Relay

variable {uris : List String} {r r' : Relay}

/-! ## Steps and news number commands on -/

/-- Settling writes no command. -/
theorem numbersOn_settle (uri : String) (c : CheckState) (r : Relay) :
    NumbersOn r (r.settle uri c).1 := by
  obtain ⟨fresh, fx, hshape, hsettling⟩ := settle_shape uri c r
  rw [hshape]
  exact .of_silent (Nat.le_refl _) ⟨fx, rfl, fun x hx => (hsettling x hx).not_sent⟩

/-- Nothing written, and no number taken back. -/
theorem NumbersOn.same (hlast : r.link.last ≤ r'.link.last) (houtbox : r'.outbox = r.outbox) :
    NumbersOn r r' :=
  .of_silent hlast (.of_outbox_eq houtbox)

theorem numbersOn_step (hstep : Step uris r r') : NumbersOn r r' := by
  cases hstep with
  | quiet hq => exact hq.numbers
  | asked => exact (numbersOn_sent _ _ r).trans (.same (Nat.le_refl _) rfl)
  | closed =>
    exact .of_silent (Nat.le_of_eq (by rw [link_forget])) ((adds_forget _ _).mono fun _ he => he.1)
  | disconnected hup =>
    exact .of_silent (Nat.le_of_eq (by rw [disconnect_of_open hup]))
      ((adds_disconnect hup _).mono fun _ he => he.1)
  | _ => exact .same (Nat.le_refl _) rfl

theorem numbersOn_heard {note : News} {failure : Option Failure}
    (hheard : Heard r note r' failure) : NumbersOn r r' := by
  cases hheard with
  | settled => exact numbersOn_settle _ _ r
  | @repeated seq uri c e text =>
    have hlogged : NumbersOn r ((r.completed seq uri c).log .info text) :=
      .of_silent (Nat.le_refl _) ⟨[_], rfl, by simp⟩
    exact (hlogged.trans (numbersOn_sent _ _ _)).trans (.same (Nat.le_refl _) rfl)
  | @severed seq uri c e text =>
    have hlogged : NumbersOn r
        (((r.retireAbandoned seq).setCheck uri (c.again seq)).log .info text) :=
      .of_silent (Nat.le_refl _) ⟨[_], rfl, by simp⟩
    exact hlogged.trans (quiet_takeSeq _).numbers
  | @exhausted seq uri c e text =>
    have hlogged : NumbersOn r ((r.retireAbandoned seq).log .warning text) :=
      .of_silent (Nat.le_refl _) ⟨[_], rfl, by simp⟩
    exact hlogged.trans (numbersOn_settle _ _ _)
  | _ => exact .same (Nat.le_refl _) rfl

/-- **Every move numbers commands on**, where sessions are kept under their own
URIs. -/
theorem numbersOn_perform (m : Move) (hkey : ∀ uri s, r.session? uri = some s → s.uri = uri) :
    NumbersOn r (m.perform r).1 := by
  cases hnews : m.news? with
  | none =>
    exact Steps.keep (P := NumbersOn r) (fun _ _ hstep h => h.trans (numbersOn_step hstep))
      (steps_perform hnews (fun _ => id) hkey) (.refl r)
  | some note =>
    exact (numbersOn_heard (heard_hear note r)).trans (perform_of_news hnews r).1.numbers

/-! ## Runs -/

/-- **Commands are numbered**: in ascending order, up to the last number given
out. -/
structure Numbered (r : Relay) : Prop where
  ascending : (numbers r.outbox).Pairwise (· < ·)
  bounded : ∀ k ∈ numbers r.outbox, k ≤ r.link.last

theorem numbered_new (setup : Setup) : (Relay.new setup).Numbered :=
  ⟨.nil, by simp [Relay.new, numbers]⟩

theorem Numbered.on (h : r.Numbered) (hon : NumbersOn r r') : r'.Numbered := by
  have hlast := hon.last
  obtain ⟨fx, hfx, hascending, hbounded⟩ := hon.written
  refine ⟨?_, fun k hk => ?_⟩
  · rw [hfx, numbers_append]
    exact List.pairwise_append.mpr ⟨h.ascending, hascending, fun k hk k' hk' =>
      Int.lt_of_le_of_lt (h.bounded k hk) (hbounded k' hk').1⟩
  · rw [hfx, numbers_append] at hk
    rcases List.mem_append.mp hk with hk | hk
    · have hle := h.bounded k hk
      omega
    · exact (hbounded k hk).2

/-- A command that was written has a number that was given out. -/
theorem Numbered.le (h : r.Numbered) {command : Service.Command}
    (hsent : .sent command ∈ r.outbox) : command.seq ≤ r.link.last :=
  h.bounded command.seq (List.mem_filterMap.mpr ⟨_, hsent, rfl⟩)

end Relay

end LanguageRelay
