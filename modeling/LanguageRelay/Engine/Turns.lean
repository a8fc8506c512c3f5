import LanguageRelay.Engine.Calls
/-!
# Turns and time

A turn does the jobs that stand in line when it begins, and no others.
Settling takes turns until nothing can run; time passes only between
settlings, from one due time to the next.

Both run on a budget that the calls and timers at hand give: a call takes
few turns before it waits for something outside, and a turn of the desk goes
to one call at a time.
-/

namespace LanguageRelay

namespace Engine

/-- Takes a turn. -/
def turn (e : Engine) : Engine :=
  let agenda := e.agenda.collectDue
  agenda.ready.foldl dispatch { e with agenda := { agenda with ready := [] } }

/-- Takes turns until nothing can run. -/
def settleWithin : Nat → Engine → Engine
  | 0, e => e
  | budget + 1, e => if e.agenda.isIdle then e else settleWithin budget e.turn

/-- The open documents of all relays, counted. -/
def openCount (e : Engine) : Nat := (e.relays.flatMap (·.sessions)).length

/-- The turns in which everything at hand comes to rest. -/
def turnBudget (e : Engine) : Nat :=
  16 * (e.calls.length + e.agenda.ready.length + e.agenda.timers.length + e.openCount) + 64

/-- Lets everything run that can run now. -/
def settle (e : Engine) : Engine := settleWithin e.turnBudget e

/-- Moves from one due time to the next up to a limit, settling at each. -/
def passWithin (limit : Int) : Nat → Engine → Engine
  | 0, e => e
  | budget + 1, e =>
    match e.agenda.nextDue? limit with
    | none => e
    | some time => passWithin limit budget { e with agenda := e.agenda.moveTo time }.settle

/-- The due times there can be within one span of time. -/
def timeBudget (e : Engine) : Nat :=
  4 * (e.calls.length + e.agenda.timers.length + e.openCount) + 64

/-- Lets a span of time pass. -/
def advance (span : Duration) (e : Engine) : Engine :=
  let limit := e.agenda.now + span.nanos
  let e := passWithin limit e.settle.timeBudget e.settle
  { e with agenda := e.agenda.moveTo limit }

/-- What was done and which calls ended since the last collection. -/
def collect (e : Engine) : Engine × List (Nat × Effect) × List (String × Except Failure Answer) :=
  ({ e with record := [], ended := [] }, e.record, e.ended)

end Engine

end LanguageRelay
