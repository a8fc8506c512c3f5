import LanguageRelay.Proofs.Engine.Moments
/-!
# An editor at work

An editor uses one relay: it opens, changes and closes documents, puts
queries and asks for diagnostics, while messages come in and timers come due.
Whatever happens is a *deed*. Deeds come in any order, also in between two
jobs of a turn, and every call runs on job by job.

A statement may hold for some deeds alone. What it asks of them are its
`Terms`: on the commands that are written for the client as they are, on the
queries that are put, and on the messages that come in.
-/

namespace LanguageRelay

namespace Engine

/-- What can happen to an engine with one relay. -/
inductive Deed where
  /-- The editor opens a document. -/
  | opened (uri languageId : String) (version : Int) (text : String)
  | changed (uri : String) (version : Int) (changes : List TextChange)
  | closed (uri : String)
  /-- The relay is to end. -/
  | ended
  /-- A check of a document is scheduled. -/
  | scheduled (uri : String)
  /-- A query is put, under a name. -/
  | query (name : String) (q : Query)
  /-- The diagnostics of a document are asked for. -/
  | check (name uri : String)
  /-- The diagnostics of all open documents are asked for. -/
  | checkAll (name : String)
  /-- Anything that happens to requests as well. -/
  | plain (a : Action)

/-- What a deed does. -/
def Deed.perform (d : Deed) (m : Moment) : Moment :=
  match d with
  | opened uri languageId version text =>
    { m with engine := (m.engine.operate 0 (Relay.didOpen uri languageId version text)).1 }
  | changed uri version changes =>
    { m with engine := (m.engine.operate 0 (Relay.didChange uri version changes)).1 }
  | closed uri => { m with engine := (m.engine.operate 0 (Relay.didClose uri)).1 }
  | ended => { m with engine := (m.engine.operate 0 Relay.shutdown).1 }
  | scheduled uri => { m with engine := (m.engine.operate 0 fun r => (r.schedule uri, ())).1 }
  | query name q => { m with engine := m.engine.spawn (.client name) (.query 0 q) }
  | check name uri => { m with engine := m.engine.spawn (.client name) (.check 0 uri) }
  | checkAll name => { m with engine := m.engine.spawn (.client name) (.checkAll 0) }
  | plain a => a.perform m

/-- Deeds one after another. -/
def work (deeds : List Deed) (m : Moment) : Moment := deeds.foldl (fun m d => d.perform m) m

@[simp] theorem work_nil (m : Moment) : work [] m = m := rfl

@[simp] theorem work_cons (d : Deed) (rest : List Deed) (m : Moment) :
    work (d :: rest) m = work rest (d.perform m) :=
  rfl

theorem work_append (deeds more : List Deed) (m : Moment) :
    work (deeds ++ more) m = work more (work deeds m) :=
  List.foldl_append ..

/-- Actions are deeds. So turns, settling and the passing of time are made of
deeds, as they are of actions (`turn_eq`, `settle_eq`, `advance_eq`). -/
theorem work_plain (actions : List Action) (m : Moment) :
    work (actions.map .plain) m = act actions m := by
  induction actions generalizing m with
  | nil => rfl
  | cons a rest ih => exact ih (a.perform m)

/-! ## Terms -/

/-- What a statement asks of deeds. -/
structure Terms where
  /-- Of commands that are written as the client gives them. -/
  tells : String → Json → Prop
  /-- Of queries, when they are put. -/
  puts : Engine → Query → Prop
  /-- Of messages, when they come in. -/
  hears : Relay → Json → Prop

/-- Nothing is asked. -/
def Terms.any : Terms := ⟨fun _ _ => True, fun _ _ => True, fun _ _ => True⟩

/-- A deed meets the terms. -/
def Deed.Meets (t : Terms) (m : Moment) : Deed → Prop
  | query _ q => t.puts m.engine q
  | plain (.request _ command arguments window) =>
    t.puts m.engine (.command command arguments window)
  | plain (.notify command arguments) => t.tells command arguments
  | plain (.receive message) => t.hears (m.engine.relay 0) message
  | _ => True

/-- All deeds meet the terms, each when it is done. -/
def Meet (t : Terms) : List Deed → Moment → Prop
  | [], _ => True
  | d :: rest, m => d.Meets t m ∧ Meet t rest (d.perform m)

theorem meet_any (deeds : List Deed) (m : Moment) : Meet .any deeds m := by
  have hmeets : ∀ (d : Deed) (m : Moment), d.Meets .any m := by
    intro d m
    cases d with
    | plain a => cases a <;> trivial
    | _ => trivial
  induction deeds generalizing m with
  | nil => trivial
  | cons d rest ih => exact ⟨hmeets d m, ih _⟩

theorem meet_append {t : Terms} {deeds more : List Deed} {m : Moment} :
    Meet t (deeds ++ more) m ↔ Meet t deeds m ∧ Meet t more (work deeds m) := by
  induction deeds generalizing m with
  | nil => simp [Meet]
  | cons d rest ih => simp [Meet, ih, and_assoc]

/-- **What every deed keeps holds after any**, if they meet the terms. -/
theorem work_induction {t : Terms} {P : Moment → Prop} {m : Moment} {deeds : List Deed} (h : P m)
    (hmeet : Meet t deeds m) (hstep : ∀ m d, P m → Deed.Meets t m d → P (d.perform m)) :
    P (work deeds m) := by
  induction deeds generalizing m with
  | nil => exact h
  | cons d rest ih => exact ih (hstep m d h hmeet.1) hmeet.2

end Engine

end LanguageRelay
