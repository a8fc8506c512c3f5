import LanguageRelay.Child.Pipes
/-!
# Keeping the child

What the keeper is called for (starting, sending, stopping), what the child
does by itself (writing, ending its output, exiting), and the passing of
time, in which a call that stops the child loses patience and kills it.
-/

namespace LanguageRelay

namespace Child

/-! ## What the child does -/

/-- The child exits; once is for good. Nothing more comes from it. -/
def terminate (code : Int) (c : Child) : Child :=
  if c.exitCode.isSome then c
  else { c with exitCode := some code, outputEnded := true, errorsEnded := true }

/-- The calls that wait for the child to exit end when it has. -/
def finishStops (c : Child) : Child :=
  if c.exitCode.isSome then
    c.stops.foldl (fun c s => c.finish s.call (.ok ())) { c with stops := [] }
  else c

/-- The child exits, and the keeper learns of it. -/
def exit (code : Int) (c : Child) : Child := (c.terminate code).attend.finishStops

/-- The child writes to its output; it cannot once that has ended. -/
def writeOutput (bytes : List UInt8) (c : Child) : Option Child :=
  if c.outputEnded then none else some { c with output := c.output ++ bytes }.attend

/-- The child writes to its error output; it cannot once that has ended. -/
def writeErrors (bytes : List UInt8) (c : Child) : Option Child :=
  if c.errorsEnded then none else some { c with errors := c.errors ++ bytes }.attend

/-- The child ends its output. -/
def endOutput (c : Child) : Child := { c with outputEnded := true }.attend

/-- The input is being closed from the side of the child. -/
def markInputClosing (c : Child) : Child := { c with inputClosing := true }

/-! ## What the keeper is called for -/

/-- Starts the child, unless it was started before. -/
def start (call : String) (c : Child) : Child :=
  if c.started then c.finish call (.ok ())
  else
    let c := (c.log .info ("starting tsserver: " ++ " ".intercalate c.setup.command)).emit .launched
    match c.setup.startError with
    | some reason =>
      { c with closed := true }.finish call (.error (.closed (.startFailed reason)))
    | none =>
      ({ c with started := true, reader := .reading, draining := true }.finish call (.ok ())).attend

/-- Writes a command to the input of the child, if it can be written. -/
def send (message : Json) (c : Child) : Child × Option Failure :=
  if c.closed || !c.started then (c, some (.closed .notRunning))
  else if c.inputClosing then (c, some (.closed .inputClosed))
  else
    match Service.line? message with
    | .ok line => (c.emit (.wrote line), none)
    | .error fault => (c, some fault)

/-- Kills the child and lets go of it: nothing it wrote is read any more. -/
def kill (call : String) (c : Child) : Child :=
  let c := { c with kills := c.kills + 1 }.terminate (-9)
  ({ c with reader := .ended, draining := false }.close none).finish call (.ok ())

/-- Closes the input of the child, which may make it exit. -/
def closeInput (c : Child) : Child :=
  if c.inputClosing then c
  else
    let c := { c with inputClosing := true }
    match c.setup.exitOnClose with
    | some code => (c.terminate code).attend
    | none => c

/-- Stops the child: its input is closed, and if it has not exited within
`patience` it is killed. -/
def stop (call : String) (patience : Duration) (c : Child) : Child :=
  if c.started then
    let c := c.closeInput
    if patience.nanos ≤ 0 then (c.kill call).finishStops
    else if c.exitCode.isSome then (c.finish call (.ok ())).finishStops
    else { c with stops := c.stops ++ [⟨call, c.now + patience.nanos⟩] }
  else c.finish call (.ok ())

/-! ## Time -/

/-- The earliest time a call waits for, if it is no later than `limit`. -/
def nextDue? (limit : Int) (stops : List Stop) : Option Int :=
  stops.foldl (fun best s => if s.due ≤ limit ∧ best.all (s.due < ·) then some s.due else best) none

/-- The calls whose time has come kill the child; the others then see that it
exited. -/
def expire (time : Int) (c : Child) : Child :=
  let late := c.stops.filter fun s => s.due ≤ time
  let c := { c with now := time, stops := c.stops.filter fun s => !(s.due ≤ time) }
  (late.foldl (fun c s => c.kill s.call) c).finishStops

/-- Lets a span of time pass. Once one call lost patience none waits any more,
so there is one such time at most. -/
def advance (span : Duration) (c : Child) : Child :=
  let limit := c.now + span.nanos
  let c := match nextDue? limit c.stops with
    | some time => c.expire time
    | none => c
  { c with now := max c.now limit }

/-- What was done since the last collection. -/
def collect (c : Child) : Child × List Effect := ({ c with outbox := [] }, c.outbox)

end Child

end LanguageRelay
