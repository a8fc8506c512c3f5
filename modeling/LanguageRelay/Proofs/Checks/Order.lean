import LanguageRelay.Proofs.Checks.Steps
import Mathlib.Data.List.Induction
/-!
# The order the analysis server keeps

The analysis server works through the checks in the order they were written.
For each it reports a category at most once, naming the check's file, and
then completes it by its number. `InOrder` says of a run that the news it
takes in are of this kind. How long news are under way is left open: they
are about checks written before they arrive, and that is all.

What is known of the server at any moment is then a *queue*: the checks
still to be completed, the oldest first, and what the oldest has reported.
-/

namespace LanguageRelay

namespace Relay

/-! ## Checks written and news heard -/

/-- The file an error check is about. -/
def checkedFile? (arguments : Json) : Option String :=
  match arguments.get "files" with
  | .arr [.str file] => some file
  | _ => none

/-- The check that was written, by number and file. -/
def writtenCheck? : Effect → Option (Int × String)
  | .sent c =>
    if c.name = Service.errorCheckName then (checkedFile? c.arguments).map fun file => (c.seq, file)
    else none
  | _ => none

/-- The checks written in a history, the oldest first. -/
def written (history : List Effect) : List (Int × String) := history.filterMap writtenCheck?

/-- The news of checks that moves take in. -/
def heard (moves : List Move) : List News := moves.filterMap Move.news?

/-- How many checks have completed. -/
def completions : List News → Nat
  | [] => 0
  | .part .. :: rest => completions rest
  | .completed _ :: rest => completions rest + 1

/-- What the check that follows `n` completed ones has reported, by
category. -/
def reports : Nat → List News → List (String × List Json)
  | _, [] => []
  | 0, .part _ category items :: rest => (category, items) :: reports 0 rest
  | 0, .completed _ :: _ => []
  | n + 1, .part .. :: rest => reports (n + 1) rest
  | n + 1, .completed _ :: rest => reports n rest

/-- News that the analysis server may tell next: of the oldest check that has
not completed. -/
def Next (checks : List (Int × String)) (news : List News) : News → Prop
  | .part file category _ =>
    (∃ seq, checks[completions news]? = some (seq, file)) ∧
      category ∉ Table.keys (reports (completions news) news)
  | .completed seq => ∃ file, checks[completions news]? = some (seq, file)

/-- **The analysis server keeps the order** along a run. -/
inductive InOrder (setup : Setup) : List Move → Prop where
  | nil : InOrder setup []
  | snoc {moves : List Move} {m : Move} (h : InOrder setup moves)
      (hnext : ∀ note, m.news? = some note →
        Next (written (run moves (Relay.new setup)).outbox) (heard moves) note) :
      InOrder setup (moves ++ [m])

variable {r r' : Relay} {setup : Setup} {moves : List Move} {m : Move} {news : List News}

@[simp] theorem heard_snoc (moves : List Move) (m : Move) :
    heard (moves ++ [m]) = heard moves ++ m.news?.toList := by
  cases hm : m.news? <;> simp [heard, hm]

/-- Effects that are not of checks wrote none. -/
theorem writtenCheck?_of_not {e : Effect} (h : ¬ e.OfChecks) : writtenCheck? e = none := by
  cases e with
  | sent c => exact if_neg h
  | _ => rfl

/-- So did effects that write nothing. -/
theorem writtenCheck?_of_not_sent {e : Effect} (h : ∀ command, e ≠ .sent command) :
    writtenCheck? e = none := by
  cases e with
  | sent command => exact absurd rfl (h command)
  | _ => rfl

/-- No check is written by effects that write none. -/
theorem written_of_adds (h : Adds (fun e => writtenCheck? e = none) r r') :
    written r'.outbox = written r.outbox := by
  obtain ⟨fx, hfx, hnot⟩ := h
  have hnone : fx.filterMap writtenCheck? = [] := List.filterMap_eq_nil_iff.mpr hnot
  rw [hfx, written, List.filterMap_append, hnone, List.append_nil, written]

theorem Quiet.written (h : Quiet r r') : Relay.written r'.outbox = Relay.written r.outbox :=
  written_of_adds (h.adds.mono fun _ => writtenCheck?_of_not)

/-- A check that is written comes last. -/
theorem written_wrote (file : String) (r : Relay) :
    written (r.wrote file).outbox = written r.outbox ++ [((r.nextSeq : Int), file)] := by
  have harguments : checkedFile? (checkArguments file) = some file := by
    simp [checkedFile?, checkArguments, Json.get, Json.get?, Json.fields, Table.get?]
  change written (r.outbox ++ [_]) = _
  simp [written, writtenCheck?, harguments]

@[simp] theorem completions_append (news news' : List News) :
    completions (news ++ news') = completions news + completions news' := by
  induction news with
  | nil => simp [completions]
  | cons note rest ih =>
    cases note with
    | part => simpa [completions] using ih
    | completed => simp only [List.cons_append, completions, ih]; omega

/-- A part that is heard is one of the oldest check. -/
theorem reports_part (news : List News) (file category : String) (items : List Json) :
    reports (completions news) (news ++ [.part file category items]) =
      reports (completions news) news ++ [(category, items)] := by
  induction news with
  | nil => rfl
  | cons note rest ih =>
    cases note with
    | part =>
      cases hn : completions rest with
      | zero => simpa [completions, hn, reports] using ih
      | succ n => simpa [completions, hn, reports] using ih
    | completed => simpa [completions, reports] using ih

/-- A completion leaves what the oldest check has reported. -/
theorem reports_over (news : List News) (seq : Int) :
    reports (completions news) (news ++ [.completed seq]) = reports (completions news) news := by
  induction news with
  | nil => rfl
  | cons note rest ih =>
    cases note with
    | part =>
      cases hn : completions rest with
      | zero => simpa [completions, hn, reports] using ih
      | succ n => simpa [completions, hn, reports] using ih
    | completed => simpa [completions, reports] using ih

/-- The check after it has reported nothing. -/
theorem reports_completed (news : List News) (seq : Int) :
    reports (completions news + 1) (news ++ [.completed seq]) = [] := by
  induction news with
  | nil => rfl
  | cons note rest ih =>
    cases note with
    | part => simpa [completions, reports] using ih
    | completed => simpa [completions, reports] using ih

/-- What a run in order consists of. -/
theorem InOrder.of_snoc (h : InOrder setup (moves ++ [m])) :
    InOrder setup moves ∧ ∀ note, m.news? = some note →
      Next (written (run moves (Relay.new setup)).outbox) (heard moves) note := by
  generalize hlist : moves ++ [m] = list at h
  cases h with
  | nil => simp at hlist
  | snoc h hnext =>
    obtain ⟨rfl, hlast⟩ := List.append_inj' hlist rfl
    cases hlast
    exact ⟨h, hnext⟩

/-- The order was kept from the start. -/
theorem InOrder.of_append {rest : List Move} (h : InOrder setup (moves ++ rest)) :
    InOrder setup moves := by
  induction rest using List.reverseRecOn with
  | nil => rwa [List.append_nil] at h
  | append_singleton rest m ih => exact ih (List.append_assoc .. ▸ h).of_snoc.1

/-- Moves without news keep any order. -/
theorem InOrder.without_news (h : InOrder setup moves) (hm : m.news? = none) :
    InOrder setup (moves ++ [m]) :=
  .snoc h (by simp [hm])

/-! ## The queue -/

/-- A check that the analysis server has still to complete. -/
structure Due where
  seq : Int
  file : String
  reported : List String

/-- The checks still to be completed, when the oldest has reported `parts`. -/
def queueOf : List (Int × String) → List (String × List Json) → List Due
  | [], _ => []
  | d :: rest, parts => ⟨d.1, d.2, Table.keys parts⟩ :: rest.map fun d => ⟨d.1, d.2, []⟩

/-- A check joins the queue at its end. -/
theorem queueOf_write {due : List (Int × String)} {parts : List (String × List Json)}
    (hidle : due = [] → parts = []) (d : Int × String) :
    queueOf (due ++ [d]) parts = queueOf due parts ++ [⟨d.1, d.2, []⟩] := by
  cases due with
  | nil => simp [queueOf, hidle rfl, Table.keys]
  | cons d' rest => simp [queueOf]

/-- A check leaves the queue at its front. -/
theorem queueOf_over (d : Int × String) (rest : List (Int × String))
    (parts : List (String × List Json)) :
    queueOf (d :: rest) parts = ⟨d.1, d.2, Table.keys parts⟩ :: queueOf rest [] := by
  cases rest with
  | nil => rfl
  | cons d' rest => simp [queueOf, Table.keys]

/-- The queue has the numbers and files of its checks. -/
theorem mem_queueOf {due : List (Int × String)} {parts : List (String × List Json)} {d : Due}
    (h : d ∈ queueOf due parts) : (d.seq, d.file) ∈ due := by
  cases due with
  | nil => simp [queueOf] at h
  | cons d' rest =>
    rcases List.mem_cons.mp h with rfl | h
    · exact List.mem_cons_self
    · obtain ⟨d'', hd'', rfl⟩ := List.mem_map.mp h
      exact List.mem_cons_of_mem _ hd''

end Relay

end LanguageRelay
