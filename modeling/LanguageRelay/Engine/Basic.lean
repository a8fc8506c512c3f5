import LanguageRelay.Engine.Agenda
import LanguageRelay.Relay.Query
/-!
# Calls

A call of the editor runs until it has to wait: for the response to a
command, for the diagnostics of a document, for the parts of a larger
request, or for its turn while the analysis server is being started. What a
call waits for, and how it goes on, is its stage.

The engine holds the calls, the relays and the agenda. All calls take turns
on the one agenda, so between two points of waiting a call is alone.
-/

namespace LanguageRelay

/-- Whether a call that waits has been woken. -/
inductive Signal where
  | pending | raised | cancelled
deriving DecidableEq, Repr

/-- Why a command is given up. -/
inductive Ending where
  | timedOut | cancelled
deriving DecidableEq, Repr

/-- How a call waits for a response: for as long as it takes, within a
window, or no more, when the command was withdrawn and the call is about to
end. -/
inductive Watch where
  | unbounded
  | windowed (signal : Signal)
  | ending (why : Ending)
deriving DecidableEq, Repr

/-- What a client of the language server calls for. -/
inductive Handler where
  | initialized
  | shutdown
  | didOpen (uri languageId : String) (version : Int) (text : String)
  | didChange (uri : String) (version : Int) (changes : List TextChange)
  | didClose (uri : String)
  | query (q : Query)
  /-- The diagnostics of one document, or of all. -/
  | diagnostics (uri : Option String)

/-- What a call is to do when it first runs. -/
inductive Work where
  | query (relay : Nat) (q : Query)
  | check (relay : Nat) (uri : String)
  | checkAll (relay : Nat)
  | handle (h : Handler)

/-- How a call goes on when its command has an outcome. -/
inductive Continuation where
  /-- With an answer for the editor, or another command. -/
  | answer (after : After)
  /-- The relay is ready to use, if the outcome is good. -/
  | startup (h : Handler)

/-- What a call waits for. -/
inductive Stage where
  /-- To run for the first time. -/
  | created (work : Work)
  /-- The outcome of a command. -/
  | asking (relay seq : Nat) (ask : Ask) (watch : Watch) (outcome : Option (Except Failure Json))
    (next : Continuation)
  /-- The diagnostics of a document. -/
  | checking (relay : Nat) (outcome : Option (Except Failure Unit))
  /-- The calls it is made of; `left` of them have not ended. -/
  | gathering (parts : List Nat) (left : Nat) (outcome : Option (Except Failure Unit))
    (cancelled : Bool)
  /-- Its turn to start the analysis server. -/
  | queued (h : Handler)

/-- Who is told when a call ends. -/
inductive Role where
  /-- The client that made the call under this name. -/
  | client (name : String)
  /-- A larger call. -/
  | part (whole : Nat)
  /-- Nobody: a timer of a relay made the call. -/
  | timer (relay : Nat)

/-- A call that has not ended. -/
structure Call where
  role : Role
  stage : Stage
  /-- The call is to be cancelled when it next runs. -/
  cancelled : Bool

/-- What is in line to be done. -/
inductive Job where
  /-- A call runs on. -/
  | resume (call : Nat)
  /-- The outcome of a command is passed on to the call that watches it. -/
  | passOn (call seq : Nat)
  /-- The window for a response is over. -/
  | expire (call seq : Nat)
  /-- The timer of a document comes due. -/
  | fire (relay : Nat) (uri : String) (timer : Nat)
  /-- A part of a larger call ended. -/
  | partEnded (whole : Nat) (outcome : Except Failure Unit)
  /-- A call made by a timer ended. -/
  | checkEnded (relay : Nat) (outcome : Except Failure Unit)

/-- One start of the analysis server. -/
structure Launch where
  root : Option String
  started : Bool
  stopped : Nat
  /-- The relay over its connection, if the start succeeded. -/
  relay : Option Nat
deriving Repr

/-- A call in line for the start of the analysis server. -/
structure Ticket where
  call : Nat
  signal : Signal
deriving DecidableEq, Repr

/-- The part of the language server that starts and stops the analysis
server. One start runs at a time; calls that need the server meanwhile stand
in line. -/
structure Desk where
  /-- For each start in turn, why it fails, if it does. -/
  startFailures : List (Option String)
  launches : List Launch
  /-- The relay in use. -/
  current : Option Nat
  locked : Bool
  line : List Ticket

/-- Calls, relays and agenda. -/
structure Engine where
  setup : Setup
  agenda : Agenda Job
  calls : List (Nat × Call)
  /-- The last number given to a call. -/
  lastCall : Nat
  relays : List Relay
  /-- The completion items handed out, by call. -/
  handedOut : List (Nat × List CompletionItem)
  desk : Desk
  /-- What was done and by which relay, not yet collected. -/
  record : List (Nat × Effect)
  /-- The calls that ended, not yet collected. -/
  ended : List (String × Except Failure Answer)

namespace Engine

/-- An engine without a relay. -/
def new (setup : Setup) (startFailures : List (Option String)) : Engine :=
  { setup, agenda := .empty, calls := [], lastCall := 0, relays := [], handedOut := []
    desk := ⟨startFailures, [], none, false, []⟩, record := [], ended := [] }

/-- An engine with one relay. -/
def withRelay (setup : Setup) : Engine :=
  { new setup [] with relays := [Relay.new setup] }

/-- Puts a job in line. -/
def post (job : Job) (e : Engine) : Engine := { e with agenda := e.agenda.post job }

/-- The call with a number. -/
def call? (id : Nat) (e : Engine) : Option Call := Table.get? id e.calls

/-- A call waits anew; a cancellation that came before has been dealt with. -/
def await (id : Nat) (stage : Stage) (e : Engine) : Engine :=
  { e with calls := Table.update id (fun c => { c with stage, cancelled := false }) e.calls }

/-- What a call waits for has moved on. -/
def amend (id : Nat) (stage : Stage) (e : Engine) : Engine :=
  { e with calls := Table.update id (fun c => { c with stage }) e.calls }

/-- A call is to be cancelled when it next runs. -/
def markCancelled (id : Nat) (e : Engine) : Engine :=
  { e with calls := Table.update id (fun c => { c with cancelled := true }) e.calls }

/-- Makes a call; it runs when its turn comes. -/
def spawn (role : Role) (work : Work) (e : Engine) : Engine :=
  let id := e.lastCall + 1
  { e with
    calls := Table.put id ⟨role, .created work, false⟩ e.calls
    lastCall := id }.post (.resume id)

/-- The relay with a number; one that was never made counts as new. -/
def relay (i : Nat) (e : Engine) : Relay := (e.relays[i]?).getD (Relay.new e.setup)

/-- Sets a relay that was made. -/
def setRelay (i : Nat) (r : Relay) (e : Engine) : Engine := { e with relays := e.relays.set i r }

/-- Notes a log line. -/
def log (i : Nat) (level : LogLevel) (text : String) (e : Engine) : Engine :=
  { e with record := e.record ++ [(i, .logged level text)] }

end Engine

end LanguageRelay
