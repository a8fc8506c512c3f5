import LanguageRelay.Engine.Basic
/-!
# How calls run on

What happens when a call ends, when it starts to wait, and when it is woken.
An operation of a relay takes effect at once; what it did is passed on by
`deliver`, which wakes calls by putting them in line and never runs them.
-/

namespace LanguageRelay

namespace Engine

/-! ## Operations of a relay -/

/-- The call that waits for the outcome of a command of a relay. -/
def watcher? (i seq : Nat) (e : Engine) : Option (Nat × Call) :=
  e.calls.find? fun c =>
    match c.2.stage with
    | .asking relay s _ _ none _ => relay == i && s == seq
    | _ => false

/-- A call learns the outcome of its command. -/
def answered (i seq : Nat) (outcome : Except Failure Json) (e : Engine) : Engine :=
  match e.watcher? i seq with
  | none => e
  | some (id, c) =>
    match c.stage with
    | .asking relay s ask watch none next =>
      let e := e.amend id (.asking relay s ask watch (some outcome) next)
      match watch with
      | .unbounded => e.post (.resume id)
      | _ => e.post (.passOn id seq)
    | _ => e

/-- A call learns that the diagnostics it waits for are there, or never will
be. -/
def released (id : Nat) (outcome : Except Failure Unit) (e : Engine) : Engine :=
  match e.call? id with
  | some ⟨_, .checking relay none, _⟩ =>
    (e.amend id (.checking relay (some outcome))).post (.resume id)
  | _ => e

/-- Passes on what a relay did. -/
def deliver (i : Nat) (e : Engine) (effect : Effect) : Engine :=
  match effect with
  | .answered seq outcome => e.answered i seq outcome
  | .released waiter outcome => e.released waiter outcome
  | .armed uri timer =>
    { e with agenda := e.agenda.setTimer (e.relay i).setup.delay.nanos (.fire i uri timer) }
  | .disarmed uri timer =>
    { e with
      agenda := e.agenda.dropTimers fun job =>
        match job with
        | .fire relay u t => relay == i && u == uri && t == timer
        | _ => false }
  | other => { e with record := e.record ++ [(i, other)] }

/-- Runs an operation of a relay and passes on, in order, what it did. -/
def operate {α : Type} (i : Nat) (f : Relay → Relay × α) (e : Engine) : Engine × α :=
  let (r, a) := f (e.relay i)
  (r.outbox.foldl (deliver i) (e.setRelay i { r with outbox := [] }), a)

/-- Changes a relay by an operation that does nothing to the world outside. -/
def mapRelay (i : Nat) (f : Relay → Relay) (e : Engine) : Engine := e.setRelay i (f (e.relay i))

/-! ## The end of a call -/

/-- The completion item a reference is to. -/
def item? (ref : ItemRef) (e : Engine) : Option CompletionItem := do
  let items ← Table.get? ref.call e.handedOut
  items[ref.index]?

/-- Puts a completion item in its place. -/
def setItem (ref : ItemRef) (item : CompletionItem) (e : Engine) : Engine :=
  { e with handedOut := Table.update ref.call (fun items => items.set ref.index item) e.handedOut }

/-- Keeps the completion items a call hands out, and puts details into the
item they were asked for. -/
def keep (id : Nat) (answer : Answer) (e : Engine) : Engine × Answer :=
  match answer with
  | .completions items => ({ e with handedOut := Table.put id items e.handedOut }, answer)
  | .details (.sent item) body => (e, .item (item.withDetails body))
  | .details (.kept ref) body =>
    match e.item? ref with
    | none => (e, .nothing)
    | some item =>
      let item := item.withDetails body
      (e.setItem ref item, .item item)
  | _ => (e, answer)

/-- The outcome of a call, less its answer. -/
def bare (outcome : Except Failure Answer) : Except Failure Unit := outcome.map fun _ => ()

/-- Tells whom it concerns that a call ended. -/
def report (role : Role) (outcome : Except Failure Answer) (e : Engine) : Engine :=
  match role with
  | .client name => { e with ended := e.ended ++ [(name, outcome)] }
  | .part whole => e.post (.partEnded whole (bare outcome))
  | .timer relay => e.post (.checkEnded relay (bare outcome))

/-- A call ends. -/
def finish (id : Nat) (outcome : Except Failure Answer) (e : Engine) : Engine :=
  match e.call? id with
  | none => e
  | some c =>
    let e := { e with calls := Table.erase id e.calls }
    match outcome with
    | .error f => e.report c.role (.error f)
    | .ok answer =>
      let (e, answer) := e.keep id answer
      e.report c.role (.ok answer)

/-! ## The desk -/

/-- Changes the desk. -/
def mapDesk (f : Desk → Desk) (e : Engine) : Engine := { e with desk := f e.desk }

/-- Wakes the first call in line, if it has not been woken. -/
def wakeFirst (e : Engine) : Engine :=
  match e.desk.line with
  | ⟨id, .pending⟩ :: rest =>
    (e.mapDesk fun d => { d with line := ⟨id, .raised⟩ :: rest }).post (.resume id)
  | _ => e

/-- The start of the analysis server is over: the next call may try. -/
def unlock (e : Engine) : Engine := (e.mapDesk fun d => { d with locked := false }).wakeFirst

/-- A call fails for want of its command; one that was starting the analysis
server leaves the desk first. -/
def fail (id : Nat) (next : Continuation) (f : Failure) (e : Engine) : Engine :=
  match next with
  | .answer _ => e.finish id (.error f)
  | .startup _ => e.unlock.finish id (.error f)

/-! ## Commands -/

/-- Writes a command; the call waits for its outcome. A window that is over
from the start withdraws the command at once. -/
def ask (id i : Nat) (ask : Ask) (next : Continuation) (e : Engine) : Engine :=
  match e.operate i (Relay.ask ask.command ask.arguments) with
  | (e, .error f) => e.fail id next f
  | (e, .ok seq) =>
    match ask.window with
    | none => e.await id (.asking i seq ask .unbounded none next)
    | some window =>
      if window.nanos ≤ 0 then
        ((e.mapRelay i (Relay.withdraw seq)).await id
          (.asking i seq ask (.ending .timedOut) (some (.error .cancelled)) next)).post
            (.passOn id seq)
      else
        { e with agenda := e.agenda.setTimer window.nanos (.expire id seq) }.await id
          (.asking i seq ask (.windowed .pending) none next)

/-- Puts a query to the analysis server. -/
def query (id i : Nat) (q : Query) (e : Engine) : Engine :=
  match q.first (e.relay i) with
  | .error f => e.finish id (.error f)
  | .ok a => e.ask id i a (.answer a.after)

/-- Asks for the diagnostics of a document. -/
def check (id i : Nat) (uri : String) (e : Engine) : Engine :=
  match e.operate i (Relay.requestCheck uri id) with
  | (e, .error f) => e.finish id (.error f)
  | (e, .ok false) => e.finish id (.ok .nothing)
  | (e, .ok true) => e.await id (.checking i none)

/-- Makes a call for each of the documents; they are numbered in order. -/
def spawnChecks (whole i : Nat) : List String → Engine → Engine
  | [], e => e
  | uri :: rest, e => spawnChecks whole i rest (e.spawn (.part whole) (.check i uri))

/-- Asks for the diagnostics of every open document. -/
def checkAll (id i : Nat) (e : Engine) : Engine :=
  let uris := (e.relay i).uris
  if uris.isEmpty then e.finish id (.ok .nothing)
  else
    let parts := List.range' (e.lastCall + 1) uris.length
    (spawnChecks id i uris e).await id (.gathering parts uris.length none false)

/-! ## Handlers -/

/-- An operation that does not wait ends its call. -/
def perform (id i : Nat) (f : Relay → Relay × Option Failure) (e : Engine) : Engine :=
  match e.operate i f with
  | (e, some failure) => e.finish id (.error failure)
  | (e, none) => e.finish id (.ok .nothing)

/-- One launch more was stopped, if it is the one of a relay. -/
def Launch.stop (i : Nat) (l : Launch) : Launch :=
  if l.relay = some i then { l with stopped := l.stopped + 1 } else l

/-- The analysis server in use is let go: asked to exit, then stopped. -/
def letGo (id : Nat) (e : Engine) : Engine :=
  match e.desk.current with
  | none => e.finish id (.ok .nothing)
  | some i =>
    match (e.mapDesk fun d => { d with current := none }).operate i Relay.shutdown with
    | (e, some f) => e.finish id (.error f)
    | (e, none) =>
      (e.mapDesk fun d => { d with launches := d.launches.map (Launch.stop i) }).finish id
        (.ok .nothing)

/-- Runs a handler that has the relay it needs. -/
def serve (id i : Nat) (h : Handler) (e : Engine) : Engine :=
  match h with
  | .initialized => e.finish id (.ok .nothing)
  | .shutdown => e.letGo id
  | .didOpen uri languageId version text =>
    e.perform id i (Relay.didOpen uri languageId version text)
  | .didChange uri version changes => e.perform id i (Relay.didChange uri version changes)
  | .didClose uri => e.perform id i (Relay.didClose uri)
  | .query q => e.query id i q
  | .diagnostics (some uri) => e.check id i uri
  | .diagnostics none => e.checkAll id i

/-- Starts the analysis server for a call that is alone at the desk. -/
def launch (id : Nat) (h : Handler) (e : Engine) : Engine :=
  let root := e.setup.root
  match (e.desk.startFailures[e.desk.launches.length]?).join with
  | some reason =>
    (e.mapDesk fun d => { d with launches := d.launches ++ [⟨root, false, 0, none⟩] }).fail id
      (.startup h) (.closed (.because reason))
  | none =>
    let i := e.relays.length
    let e := { e with relays := e.relays ++ [Relay.new e.setup] }
    let e := e.mapDesk fun d => { d with launches := d.launches ++ [⟨root, true, 0, some i⟩] }
    match Query.first (e.relay i) .introduction with
    | .error f => e.fail id (.startup h) f
    | .ok a => e.ask id i a (.startup h)

/-- Takes the desk for a call: it starts the analysis server unless that has
happened meanwhile. -/
def takeDesk (id : Nat) (h : Handler) (e : Engine) : Engine :=
  match e.desk.current with
  | some i => (e.mapDesk fun d => { d with locked := true }).unlock.serve id i h
  | none => (e.mapDesk fun d => { d with locked := true }).launch id h

/-- Nobody is at the desk and nobody in line for it. -/
def deskFree (e : Engine) : Bool :=
  !e.desk.locked && e.desk.line.all fun t => t.signal == .cancelled

/-- A handler begins: it needs a relay, and waits in line if one is just being
started. Shutting down needs none. -/
def handle (id : Nat) (h : Handler) (e : Engine) : Engine :=
  match h with
  | .shutdown => e.letGo id
  | _ =>
    match e.desk.current with
    | some i => e.serve id i h
    | none =>
      if e.deskFree then e.takeDesk id h
      else
        (e.mapDesk fun d => { d with line := d.line ++ [⟨id, .pending⟩] }).await id (.queued h)

/-- The text of the project root in a log line. -/
def rootText (root : Option String) : String := root.getD "None"

/-- The analysis server is ready: it is in use from now on, the desk is free
again, and the handler that started it goes on. -/
def ready (id i : Nat) (h : Handler) (e : Engine) : Engine :=
  let e := e.mapDesk fun d => { d with current := some i }
  let e := e.log i .info ("tsserver bridge ready (root " ++ rootText e.setup.root ++ ")")
  e.unlock.serve id i h

/-! ## Running on -/

/-- A call runs for the first time. -/
def begin (id : Nat) (work : Work) (e : Engine) : Engine :=
  match work with
  | .query i q => e.query id i q
  | .check i uri => e.check id i uri
  | .checkAll i => e.checkAll id i
  | .handle h => e.handle id h

/-- A call goes on with the outcome of its command. -/
def proceed (id i : Nat) (next : Continuation) (outcome : Except Failure Json) (e : Engine) :
    Engine :=
  match next with
  | .startup h =>
    match outcome with
    | .ok _ => e.ready id i h
    | .error f => e.fail id next f
  | .answer after =>
    match after.proceed (e.relay i).setup.window outcome with
    | .finished o => e.finish id o
    | .ask a => e.ask id i a (.answer a.after)

/-- A call has done with its command: it is not listed any more, and its
window does not matter any more. -/
def leave (id i seq : Nat) (e : Engine) : Engine :=
  { e.mapRelay i (Relay.unlist seq) with
    agenda := e.agenda.dropTimers fun job =>
      match job with
      | .expire call s => call == id && s == seq
      | _ => false }

/-- A command was not answered in time. -/
def lateText (ask : Ask) (seq : Nat) : String :=
  "tsserver command " ++ ask.command ++ " (seq " ++ natText seq ++ ") timed out after "
    ++ ask.shownWindow.brief ++ "s"

/-- A call gives its command up: the command is withdrawn, and the call ends
once that has been passed on. -/
def giveUp (id i seq : Nat) (ask : Ask) (why : Ending) (next : Continuation) (e : Engine) :
    Engine :=
  ((e.mapRelay i (Relay.withdraw seq)).await id
    (.asking i seq ask (.ending why) (some (.error .cancelled)) next)).post (.passOn id seq)

/-- A call that waits within a window is woken: it goes on with the outcome if
there is one, also if it was cancelled meanwhile. -/
def wakeWindowed (id i seq : Nat) (ask : Ask) (outcome : Option (Except Failure Json))
    (why : Ending) (next : Continuation) (e : Engine) : Engine :=
  match outcome with
  | some o => (e.leave id i seq).proceed id i next o
  | none => e.giveUp id i seq ask why next

/-- A call that gave its command up ends. -/
def endAsking (id i seq : Nat) (ask : Ask) (why : Ending) (next : Continuation) (e : Engine) :
    Engine :=
  let e := e.leave id i seq
  match why with
  | .cancelled => e.proceed id i next (.error .cancelled)
  | .timedOut =>
    (e.log i .warning (lateText ask seq)).proceed id i next
      (.error (.timedOut ask.command seq ask.shownWindow))

/-- A call that waits for a command is woken. -/
def resumeAsking (id : Nat) (cancelled : Bool) (i seq : Nat) (ask : Ask) (watch : Watch)
    (outcome : Option (Except Failure Json)) (next : Continuation) (e : Engine) : Engine :=
  match watch with
  | .unbounded =>
    if cancelled then (e.leave id i seq).proceed id i next (.error .cancelled)
    else
      match outcome with
      | some o => (e.leave id i seq).proceed id i next o
      | none => e
  | .windowed signal =>
    if cancelled then e.wakeWindowed id i seq ask outcome .cancelled next
    else
      match signal with
      | .cancelled => e.wakeWindowed id i seq ask outcome .cancelled next
      | .raised => e.wakeWindowed id i seq ask outcome .timedOut next
      | .pending => e
  | .ending why => e.endAsking id i seq ask (if cancelled then .cancelled else why) next

/-- The answer of a call that has none to give but that it is done. -/
def done (outcome : Except Failure Unit) : Except Failure Answer := outcome.map fun _ => .nothing

/-- A call that waited in line is woken. A cancelled one passes its turn on if
nobody is at the desk. -/
def resumeQueued (id : Nat) (cancelled : Bool) (h : Handler) (e : Engine) : Engine :=
  match e.desk.line.find? fun t => t.call = id with
  | none => e
  | some ticket =>
    let left := e.mapDesk fun d => { d with line := d.line.filter fun t => t.call ≠ id }
    if cancelled || ticket.signal == .cancelled then
      (if left.desk.locked then left else left.wakeFirst).finish id (.error .cancelled)
    else if ticket.signal == .raised then left.takeDesk id h
    else e

/-- A call runs on. One that was not woken, or is over, does nothing. -/
def resume (id : Nat) (e : Engine) : Engine :=
  match e.call? id with
  | none => e
  | some c =>
    match c.stage with
    | .created work => if c.cancelled then e.finish id (.error .cancelled) else e.begin id work
    | .asking i seq ask watch outcome next =>
      e.resumeAsking id c.cancelled i seq ask watch outcome next
    | .checking _ outcome | .gathering _ _ outcome _ =>
      if c.cancelled then e.finish id (.error .cancelled)
      else
        match outcome with
        | some o => e.finish id (done o)
        | none => e
    | .queued h => e.resumeQueued id c.cancelled h

/-! ## Jobs -/

/-- The outcome of a command is passed on: the call that watches it wakes. -/
def passOn (id seq : Nat) (e : Engine) : Engine :=
  match e.call? id with
  | some ⟨_, .asking i s ask watch outcome next, _⟩ =>
    if s = seq then
      match watch with
      | .windowed .pending =>
        (e.amend id (.asking i s ask (.windowed .raised) outcome next)).post (.resume id)
      | .ending _ => e.post (.resume id)
      | _ => e
    else e
  | _ => e

/-- The window for a response is over: the call that watches wakes. -/
def expire (id seq : Nat) (e : Engine) : Engine :=
  match e.call? id with
  | some ⟨_, .asking i s ask (.windowed .pending) outcome next, _⟩ =>
    if s = seq then
      (e.amend id (.asking i s ask (.windowed .raised) outcome next)).post (.resume id)
    else e
  | _ => e

/-- The timer of a document comes due: its diagnostics are asked for. -/
def fire (i : Nat) (uri : String) (timer : Nat) (e : Engine) : Engine :=
  match e.operate i (Relay.fire uri timer) with
  | (e, true) => e.spawn (.timer i) (.check i uri)
  | (e, false) => e

/-- A part of a larger call ended. The first failure of a part, or the end of
the last one, is the outcome of the whole. -/
def partEnded (whole : Nat) (outcome : Except Failure Unit) (e : Engine) : Engine :=
  match e.call? whole with
  | some ⟨_, .gathering parts left none cancelled, _⟩ =>
    match outcome with
    | .error f =>
      (e.amend whole (.gathering parts (left - 1) (some (.error f)) cancelled)).post
        (.resume whole)
    | .ok () =>
      if left ≤ 1 then
        (e.amend whole (.gathering parts 0
          (some (if cancelled then .error .cancelled else .ok ())) cancelled)).post (.resume whole)
      else e.amend whole (.gathering parts (left - 1) none cancelled)
  | _ => e

/-- A call made by a timer ended; nobody but the log is told of a failure. -/
def checkEnded (i : Nat) (outcome : Except Failure Unit) (e : Engine) : Engine :=
  match outcome with
  | .ok () | .error .cancelled => e
  | .error f =>
    e.log i .warning ("scheduled diagnostics failed: " ++ (f.message?).getD "")

/-- Does a job. -/
def dispatch (e : Engine) (job : Job) : Engine :=
  match job with
  | .resume id => e.resume id
  | .passOn id seq => e.passOn id seq
  | .expire id seq => e.expire id seq
  | .fire i uri timer => e.fire i uri timer
  | .partEnded whole outcome => e.partEnded whole outcome
  | .checkEnded i outcome => e.checkEnded i outcome

/-! ## Cancelling -/

/-- Cancels a call that is not made of others: what it waits for is given up,
or if that has come already, the call is cancelled when it next runs. -/
def cancelSimple (id : Nat) (e : Engine) : Engine :=
  match e.call? id with
  | none => e
  | some c =>
    match c.stage with
    | .asking i seq ask .unbounded none next =>
      ((e.mapRelay i (Relay.withdraw seq)).amend id
        (.asking i seq ask .unbounded (some (.error .cancelled)) next)).post (.resume id)
    | .asking i seq ask (.windowed .pending) outcome next =>
      (e.amend id (.asking i seq ask (.windowed .cancelled) outcome next)).post (.resume id)
    | .checking i none =>
      ((e.mapRelay i (Relay.withdrawWaiter id)).amend id
        (.checking i (some (.error .cancelled)))).post (.resume id)
    | .queued _ =>
      if e.desk.line.any fun t => t.call == id && t.signal == .pending then
        (e.mapDesk fun d =>
          { d with
            line := d.line.map fun t =>
              if t.call = id then { t with signal := .cancelled } else t }).post (.resume id)
      else e.markCancelled id
    | _ => e.markCancelled id

/-- Cancels a call. One that is made of others cancels those that have not
ended, and ends when they have. -/
def cancel (id : Nat) (e : Engine) : Engine :=
  match e.call? id with
  | some ⟨_, .gathering parts left none _, _⟩ =>
    let running := parts.filter fun p => (e.call? p).isSome
    if running.isEmpty then e.markCancelled id
    else (running.foldl (fun e p => e.cancelSimple p) e).amend id (.gathering parts left none true)
  | _ => e.cancelSimple id

/-- The call a client made under a name, if it has not ended. -/
def named? (name : String) (e : Engine) : Option Nat :=
  (e.calls.find? fun c =>
    match c.2.role with
    | .client n => n == name
    | _ => false).map Prod.fst

end Engine

end LanguageRelay
