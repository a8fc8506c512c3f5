import LanguageRelay.Proofs.Editing.Shifts
import LanguageRelay.Proofs.Relay.Naming
/-!
# Items that are handed out

A call that asked for completions hands out its items, and keeps them. Details
that come in later go into an item that is kept, which keeps its handle. So a
handle that is handed out was made from the answer to a query
(`handedOut_finish`), and **if that was about the file of a document, so is the
handle** (`genuine_finish`).
-/

namespace LanguageRelay

namespace Engine

/-- A completion item with the handle was handed out. -/
def HandedOut (e : Engine) (h : CompletionHandle) : Prop :=
  ∃ x ∈ e.handedOut, ∃ item ∈ x.2, item.handle = .ok h

/-- **Every handle that was handed out has the file of its document.** -/
def Genuine (e : Engine) : Prop := ∀ h, e.HandedOut h → Uri.fileOf? h.uri = some h.file

variable {e : Engine} {id : Nat} {c : Call}

/-- What a relay did hands out nothing. -/
theorem genuine_takeIn (h : e.Orderly) (hgenuine : e.Genuine) (r : Relay) :
    (e.takeIn r).Genuine := by
  have hhanded : (e.takeIn r).handedOut = e.handedOut := by
    rw [(heeded_takeIn h.apart r).same]
    rfl
  intro handle hout
  rw [HandedOut, hhanded] at hout
  exact hgenuine handle hout

theorem handedOut_report (role : Role) (outcome : Except Failure Answer) (e : Engine) :
    (e.report role outcome).handedOut = e.handedOut := by
  cases role <;> rfl

/-- What is kept of an answer is its items, or details of an item that is kept. -/
theorem handedOut_keep {answer : Answer} {h : CompletionHandle}
    (hout : (e.keep id answer).1.HandedOut h) : e.HandedOut h ∨
      ∃ items, answer = .completions items ∧ ∃ item ∈ items, item.handle = .ok h := by
  unfold keep at hout
  split at hout
  · rename_i items
    obtain ⟨x, hx, item, hitem, hhandle⟩ := hout
    rcases Table.mem_put hx with rfl | hx
    · exact .inr ⟨items, rfl, item, hitem, hhandle⟩
    · exact .inl ⟨x, hx, item, hitem, hhandle⟩
  · exact .inl hout
  · rename_i ref body
    split at hout
    · exact .inl hout
    · rename_i kept hkept
      obtain ⟨items, hitems, hindex⟩ := Option.bind_eq_some_iff.mp hkept
      obtain ⟨x, hx, item, hitem, hhandle⟩ := hout
      rcases Table.mem_update hx with hx | ⟨old, hold, rfl⟩
      · exact .inl ⟨x, hx, item, hitem, hhandle⟩
      · rcases List.mem_or_eq_of_mem_set hitem with hitem | rfl
        · exact .inl ⟨_, hold, item, hitem, hhandle⟩
        · -- the details went into an item that was handed out
          rw [handle_withDetails] at hhandle
          exact .inl ⟨_, Table.mem_of_get? hitems, kept, List.mem_of_getElem? hindex, hhandle⟩
  · exact .inl hout

/-- **A call that ends hands out the items of its answer**, and no others. -/
theorem handedOut_finish {outcome : Except Failure Answer} {h : CompletionHandle}
    (hout : (e.finish id outcome).HandedOut h) : e.HandedOut h ∨
      ∃ items, outcome = .ok (.completions items) ∧ ∃ item ∈ items, item.handle = .ok h := by
  unfold finish at hout
  split at hout
  · exact .inl hout
  · rename_i c hcall
    simp only [] at hout
    split at hout
    · rw [HandedOut, handedOut_report] at hout
      exact .inl hout
    · rename_i answer
      rw [HandedOut, handedOut_report] at hout
      rcases handedOut_keep hout with hout | ⟨items, rfl, hitems⟩
      · exact .inl hout
      · exact .inr ⟨items, rfl, hitems⟩

/-- Only an answer to a query for completions has items. -/
theorem completions_of_proceed {window : Option Duration} {after : After}
    {o : Except Failure Json} {items : List CompletionItem}
    (h : after.proceed window o = .finished (.ok (.completions items))) :
    ∃ uri place body, after = .completion uri place ∧ o = .ok body ∧
      CompletionItem.ofEntries uri place body.items = .ok items := by
  have hnothing : ∀ otherwise f, After.orNothing otherwise f = .ok (.completions items) →
      otherwise = .completions items := by
    intro otherwise f hf
    unfold After.orNothing at hf
    split at hf
    · split at hf
      · exact Except.ok.inj hf
      · cases hf
    · cases hf
  have hmap : ∀ {α : Type} (x : Except Failure α) (f : α → Answer),
      x.map f = .ok (.completions items) → ∃ a, x = .ok a ∧ f a = .completions items := by
    intro α x f hx
    cases x with
    | error e => cases hx
    | ok a => exact ⟨a, rfl, Except.ok.inj hx⟩
  cases o with
  | error e =>
    cases after with
    | signatures => exact absurd (hnothing _ _ (Progress.finished.inj h)) (by simp)
    | hover => exact absurd (hnothing _ _ (Progress.finished.inj h)) (by simp)
    | _ => exact absurd (Progress.finished.inj h) (by simp)
  | ok body =>
    cases after with
    | completion uri place =>
      obtain ⟨items', hitems, heq⟩ := hmap _ _ (Progress.finished.inj h)
      cases heq
      exact ⟨uri, place, body, rfl, rfl, hitems⟩
    | nothing => exact absurd (Progress.finished.inj h) (by simp)
    | raw => exact absurd (Progress.finished.inj h) (by simp)
    | details source => exact absurd (Progress.finished.inj h) (by simp)
    | formatOptions file text => cases h
    | _ =>
      obtain ⟨a, -, heq⟩ := hmap _ _ (Progress.finished.inj h)
      cases heq

/-- **Handles stay genuine when a call ends** that was about the file of a
document. -/
theorem genuine_finish {outcome : Except Failure Answer} {prepared : String → Prop}
    (hends : Ends e c outcome) (hgenuine : e.Genuine)
    (hfaithful : ∀ seq ask watch told after,
      c.stage = .asking 0 seq ask watch (some told) (.answer after) → after.Faithful prepared) :
    (e.finish id outcome).Genuine := by
  intro h hout
  rcases handedOut_finish hout with hout | ⟨items, rfl, item, hitem, hhandle⟩
  · exact hgenuine h hout
  -- a call that ends with items has had the response to a query for completions
  · cases hends with
    | failed f heq => cases heq
    | done heq => cases heq
    | answered hstage htold hproceed =>
      obtain ⟨uri, place, body, rfl, rfl, hitems⟩ := completions_of_proceed hproceed
      obtain ⟨file, hplace, hfile⟩ := hfaithful _ _ _ _ _ hstage
      exact genuine_ofEntries hplace hfile hitems item hitem h hhandle

end Engine

end LanguageRelay
