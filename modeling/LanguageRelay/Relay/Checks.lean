import LanguageRelay.Relay.Link
/-!
# Error checks

An error check reports the diagnostics of a file in parts, one event per
category, and then completes. The parts of one check are merged, and what
they hold together is published once every category has reported.

Events name the file but not the check. The analysis server works through
checks in the order they were written, so a part belongs to the oldest check
of the file still in flight that has not reported its category. A change of
the document begins a new generation; parts of older generations are
dropped. A check that completes without all its parts is asked again twice,
then the parts there are get published.
-/

namespace LanguageRelay

namespace Relay

/-- How often an incomplete generation is asked for again. -/
def maxRetries : Nat := 2

/-- The category an event reports. -/
def categoryOf? (event : String) : Option String :=
  Table.get? event
    [("syntaxDiag", "syntax"), ("semanticDiag", "semantic"), ("suggestionDiag", "suggestion")]

/-- The arguments of an error check of one file. -/
def checkArguments (file : String) : Json := .obj [("files", .arr [.str file]), ("delay", .int 0)]

/-- Writes an error check and begins a generation with it. -/
def startGeneration (uri : String) (c : CheckState) (r : Relay) : Relay × Option Failure :=
  match r.notify Service.errorCheckName (checkArguments c.file) with
  | (r, .error e) => (r, some e)
  | (r, .ok seq) =>
    (r.setCheck uri
      { c with
        generation := c.generation + 1
        outstanding := r.setup.categories.eraseDups
        merged := []
        inFlight := c.inFlight ++ [⟨seq, c.generation + 1, []⟩] }, none)

/-- Gives the waiters that are not settled their outcome. -/
def releaseWaiters (outcome : Except Failure Unit) : List Waiter → Relay → Relay
  | [], r => r
  | w :: rest, r =>
    releaseWaiters outcome rest (if w.settled then r else r.emit (.released w.id outcome))

/-- Adds a waiter to the current generation of a document. -/
def addWaiter (uri : String) (waiter : Nat) (r : Relay) : Relay :=
  r.mapCheck uri fun c => { c with waiters := c.waiters ++ [⟨waiter, false⟩] }

/-- Settles a waiter without an outcome: its call was given up. -/
def withdrawWaiter (waiter : Nat) (r : Relay) : Relay :=
  r.mapChecks fun c => { c with waiters := c.waiters.map (Waiter.withdraw waiter) }

/-- Makes sure that a document has a record of its checks. -/
def enroll (uri file : String) (r : Relay) : Relay × CheckState :=
  match r.check? uri with
  | some c => (r, c)
  | none =>
    let c := CheckState.new file
    ({ r.setCheck uri c with uriByFile := Table.put file uri r.uriByFile }, c)

/-- Asks for the diagnostics of a document. The answer says whether the call
has to wait: not if what is published is current. -/
def requestCheck (uri : String) (waiter : Nat) (r : Relay) : Relay × Except Failure Bool :=
  match r.session? uri with
  | none => (r, .error (.invalidState (.notOpen "diagnostics" uri)))
  | some s =>
    let (r, c) := r.enroll uri s.file
    if c.outstanding.isEmpty then
      if c.fresh then (r, .ok false)
      else
        match r.startGeneration uri c with
        | (r, some e) => (r, .error e)
        | (r, none) => (r.addWaiter uri waiter, .ok true)
    else (r.addWaiter uri waiter, .ok true)

/-! ## Scheduling -/

/-- Takes back the timer of a document. -/
def disarm (uri : String) (r : Relay) : Relay :=
  match Table.get? uri r.scheduled with
  | none => r
  | some timer =>
    { r with scheduled := Table.erase uri r.scheduled }.emit (.disarmed uri timer)

/-- Sets the timer of a document; one it had is taken back. -/
def schedule (uri : String) (r : Relay) : Relay :=
  let r := r.disarm uri
  let timer := r.lastTimer + 1
  { r with
    scheduled := Table.put uri timer r.scheduled
    lastTimer := timer }.emit (.armed uri timer)

/-- A timer comes due. The answer says whether the document is to be checked:
if the timer is still the document's and the document is open. -/
def fire (uri : String) (timer : Nat) (r : Relay) : Relay × Bool :=
  if Table.get? uri r.scheduled = some timer then
    ({ r with scheduled := Table.erase uri r.scheduled }, (r.session? uri).isSome)
  else (r, false)

/-! ## Changes of documents -/

/-- No published diagnostics are current any more. -/
def stale (r : Relay) : Relay :=
  r.mapChecks fun c => { c with fresh := false }

/-- A document changed: results in flight for it are stale, and those that
calls wait for are asked for again. -/
def invalidate (uri : String) (r : Relay) : Relay × Option Failure :=
  let r := r.stale
  match r.check? uri with
  | none => (r, none)
  | some c =>
    if c.outstanding.isEmpty then (r, none)
    else if c.waiters.isEmpty then
      (r.setCheck uri
        { c with generation := c.generation + 1, outstanding := [], merged := [] }, none)
    else r.startGeneration uri c

/-- Keeps the checks still running for a file whose document is closed. -/
def abandon (file : String) (inFlight : List InFlight) (r : Relay) : Relay :=
  if inFlight.isEmpty then r
  else
    r.setAbandoned file ((Table.get? file r.abandoned).getD [] ++ inFlight)

/-- The file of a document no longer leads to it. -/
def unlinkFile (file uri : String) (r : Relay) : Relay :=
  if Table.get? file r.uriByFile = some uri then
    { r with uriByFile := Table.erase file r.uriByFile }
  else r

/-- A document was closed: nothing more is published for it. -/
def forget (uri : String) (r : Relay) : Relay :=
  let r := r.disarm uri
  match r.check? uri with
  | none => r
  | some c =>
    let r := { r with checks := Table.erase uri r.checks }
    releaseWaiters (.ok ()) c.waiters ((r.unlinkFile c.file uri).abandon c.file c.inFlight)

/-! ## Events -/

/-- The entries reported, category by category in the order set up. -/
def mergedEntries (categories : List String) (merged : List (String × List Json)) : List Json :=
  categories.flatMap fun category => (Table.get? category merged).getD []

/-- Logs the entries that are left out of a notification. -/
def logSkipped (uri : String) : List ProtocolFault → Relay → Relay
  | [], r => r
  | fault :: rest, r =>
    logSkipped uri rest
      (r.log .error ("skipping diagnostic for " ++ uri ++ ": " ++ fault.message))

/-- Ends the current generation of a document: what was reported is published
and the waiters are released. An entry that fails otherwise than as a
protocol fault stops short of both. -/
def settle (uri : String) (c : CheckState) (r : Relay) : Relay × Option Failure :=
  let ended := { c with waiters := [], merged := [], retries := 0 }
  let r := r.setCheck uri ended
  match r.session? uri with
  | none => (releaseWaiters (.ok ()) c.waiters r, none)
  | some s =>
    let (faults, result) := Diagnostic.ofEntries (mergedEntries r.setup.categories c.merged)
    let r := logSkipped uri faults r
    match result with
    | .error e => (r, some e)
    | .ok diagnostics =>
      let r := r.setCheck uri { ended with fresh := true }
      (releaseWaiters (.ok ()) c.waiters (r.emit (.published uri diagnostics (some s.version))),
        none)

/-- The oldest check that has not reported a category, and the checks after
it has. -/
def markFirst (category : String) : List InFlight → Option (InFlight × List InFlight)
  | [] => none
  | entry :: rest =>
    if entry.reported.contains category then
      (markFirst category rest).map fun (found, rest) => (found, entry :: rest)
    else some (entry, { entry with reported := entry.reported ++ [category] } :: rest)

/-- A part of a check is credited to a closed document that awaits it. -/
def creditAbandoned? (file category : String) (r : Relay) : Option Relay :=
  (markFirst category ((Table.get? file r.abandoned).getD [])).map fun (_, entries) =>
    r.setAbandoned file entries

/-- A part of a check of an open document: it counts if it belongs to the
current generation and its category is still awaited. -/
def report (uri category : String) (entries : List Json) (c : CheckState) (r : Relay) :
    Relay × Option Failure :=
  match markFirst category c.inFlight with
  | none => (r, none)
  | some (entry, inFlight) =>
    let c := { c with inFlight }
    if entry.generation ≠ c.generation ∨ !c.outstanding.contains category then
      (r.setCheck uri c, none)
    else
      let c :=
        { c with
          merged := Table.put category entries c.merged
          outstanding := c.outstanding.filter (· ≠ category) }
      let r := r.setCheck uri c
      if c.outstanding.isEmpty then r.settle uri c else (r, none)

/-- A part of a check arrives. -/
def reportFile (file category : String) (entries : List Json) (r : Relay) :
    Relay × Option Failure :=
  match r.creditAbandoned? file category with
  | some r => (r, none)
  | none =>
    match Table.get? file r.uriByFile with
    | none => (r, none)
    | some uri =>
      match r.check? uri with
      | none => (r, none)
      | some c => r.report uri category entries c

/-- The checks of a file that come after the one with the given number, if
there are any. -/
def stillRunning (seq : Int) (e : String × List InFlight) : Option (String × List InFlight) :=
  let left := e.2.filter fun entry => seq < entry.seq
  if left.isEmpty then none else some (e.1, left)

/-- Checks of closed documents up to the completed one report no more. -/
def retireAbandoned (seq : Int) (r : Relay) : Relay :=
  { r with abandoned := r.abandoned.filterMap (stillRunning seq) }

/-- The document that has a check in flight, and that check. -/
def findInFlight? (seq : Int) : List (String × CheckState) → Option (String × CheckState × InFlight)
  | [] => none
  | (uri, c) :: rest =>
    match c.inFlight.find? fun entry => (entry.seq : Int) = seq with
    | some entry => some (uri, c, entry)
    | none => findInFlight? seq rest

/-- Texts in ascending order, with commas between them. -/
def sortedList (texts : List String) : String :=
  Display.join ", " (texts.mergeSort fun a b => a ≤ b)

/-- The current check of a document completed without all its parts. -/
def incomplete (uri : String) (c : CheckState) (r : Relay) : Relay × Option Failure :=
  let missing := sortedList c.outstanding
  if maxRetries ≤ c.retries then
    (r.log .warning
      ("geterr for " ++ c.file ++ " never reported " ++ missing ++ "; publishing partial")).settle
      uri { c with outstanding := [] }
  else
    let c := { c with retries := c.retries + 1 }
    ((r.log .info
      ("geterr for " ++ c.file ++ " ended without " ++ missing
        ++ "; requesting again")).setCheck uri c).startGeneration uri c

/-- A check completed. Older checks of its document cannot report any more
either. -/
def complete (seq : Int) (r : Relay) : Relay × Option Failure :=
  let r := r.retireAbandoned seq
  match findInFlight? seq r.checks with
  | none => (r, none)
  | some (uri, c, entry) =>
    let c := { c with inFlight := c.inFlight.filter fun e => seq < e.seq }
    let r := r.setCheck uri c
    if entry.generation ≠ c.generation ∨ c.outstanding.isEmpty then (r, none)
    else r.incomplete uri c

/-- An event arrives; events that tell nothing of error checks change
nothing. -/
def handleEvent (event : Service.Event) (r : Relay) : Relay × Option Failure :=
  if event.event = Service.completedEvent then
    match (event.body.get "request_seq").exactInteger? with
    | some seq => r.complete seq
    | none => (r, none)
  else
    match categoryOf? event.event, event.body.get "file" with
    | some category, .str file =>
      r.reportFile file category (event.body.get "diagnostics").items
    | _, _ => (r, none)

/-! ## The end of the connection -/

/-- Takes back every timer. -/
def disarmAll (r : Relay) : Relay :=
  { r with
    scheduled := []
    outbox := r.outbox ++ r.scheduled.map fun e => Effect.disarmed e.1 e.2 }

/-- Ends all generations: every waiter is told that the connection closed. -/
def releaseAll (cause : Closure) (r : Relay) : Relay :=
  let waiters := r.checks.flatMap fun e => e.2.waiters
  let r := { r with abandoned := [] }.disarmAll
  releaseWaiters (.error (.closed cause)) waiters
    (r.mapChecks fun c => { c with outstanding := [], waiters := [] })

/-- The connection closed. A second closing changes nothing. -/
def disconnect (cause : Closure) (r : Relay) : Relay :=
  if r.link.closed.isSome then r
  else
    ((({ r with link := { r.link with closed := some cause } }.rejectPending cause).releaseAll
      cause).emit (.closed cause))

/-- A message of the analysis server arrives. -/
def receive (message : Json) (r : Relay) : Relay × Option Failure :=
  match Service.Message.ofJson message with
  | .error fault => (r.log .error ("dropping tsserver message: " ++ fault.message), none)
  | .ok (.response response) => (r.resolve response, none)
  | .ok (.event event) =>
    match r.handleEvent event with
    | (r, some e) => (r, some e)
    | (r, none) => (r.emit (.noticed event), none)

end Relay

end LanguageRelay
