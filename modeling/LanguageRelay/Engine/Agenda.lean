/-!
# The agenda

What is to be done, in order. Jobs that can run wait in line, first come,
first served; others wait for a time. A turn moves the jobs that came due to
the end of the line and then runs as many jobs as stand in it; what these
add is for the next turn. Times are counted in whole ticks.
-/

namespace LanguageRelay

/-- A job that waits for a time. -/
structure Timer (Job : Type) where
  due : Int
  job : Job

/-- The jobs in line and the jobs that wait for their time, those in the
order in which they were set. -/
structure Agenda (Job : Type) where
  now : Int
  ready : List Job
  timers : List (Timer Job)

namespace Agenda

variable {Job : Type}

/-- Nothing to do, at time zero. -/
def empty : Agenda Job := ⟨0, [], []⟩

/-- Puts a job at the end of the line. -/
def post (job : Job) (a : Agenda Job) : Agenda Job := { a with ready := a.ready ++ [job] }

/-- Sets a job for a time from now. -/
def setTimer (delay : Int) (job : Job) (a : Agenda Job) : Agenda Job :=
  { a with timers := a.timers ++ [⟨a.now + delay, job⟩] }

/-- Takes back the jobs that wait for a time and satisfy `p`. -/
def dropTimers (p : Job → Bool) (a : Agenda Job) : Agenda Job :=
  { a with timers := a.timers.filter fun t => !p t.job }

/-- The jobs that are due, by time and then in the order they were set. -/
def due (a : Agenda Job) : List (Timer Job) :=
  (a.timers.filter fun t => t.due ≤ a.now).mergeSort fun s t => s.due ≤ t.due

/-- Moves the jobs that are due to the end of the line. -/
def collectDue (a : Agenda Job) : Agenda Job :=
  { a with
    ready := a.ready ++ a.due.map Timer.job
    timers := a.timers.filter fun t => !(t.due ≤ a.now) }

/-- Nothing can run now. -/
def isIdle (a : Agenda Job) : Bool := a.ready.isEmpty && a.timers.all fun t => a.now < t.due

/-- The earliest time a job waits for, if it is no later than `limit`. -/
def nextDue? (limit : Int) (a : Agenda Job) : Option Int :=
  (a.timers.map Timer.due).foldl
    (fun best d => if d ≤ limit ∧ best.all (d < ·) then some d else best) none

/-- Sets the clock, never backwards. -/
def moveTo (time : Int) (a : Agenda Job) : Agenda Job := { a with now := max a.now time }

end Agenda

end LanguageRelay
