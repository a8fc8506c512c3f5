import LanguageRelay.Config.Basic
import LanguageRelay.Diagnostic.Basic
import LanguageRelay.Editor.Document
import LanguageRelay.Log
import LanguageRelay.Service.Command
import LanguageRelay.Service.Message
import LanguageRelay.Table
/-!
# The state of a relay

A relay stands between an editor and one connection to the analysis server.
It numbers the commands it writes and keeps those that await a response
(`Link`), keeps the text of each open document (`Session`), and merges the parts of
error checks into one notification per document (`CheckState`).

Nothing here waits. An operation changes the state at once and leaves in the
outbox, in order, what it did to the world outside: commands written,
notifications published, log lines, and calls to be woken.
-/

namespace LanguageRelay

/-- What an operation did to the world outside. -/
inductive Effect where
  /-- A command was written. -/
  | sent (command : Service.Command)
  /-- A line was logged. -/
  | logged (level : LogLevel) (text : String)
  /-- The diagnostics of a document were published. -/
  | published (uri : String) (diagnostics : List Diagnostic) (version : Option Int)
  /-- The command numbered `seq` has its outcome. -/
  | answered (seq : Nat) (outcome : Except Failure Json)
  /-- A call that waits for diagnostics has its outcome. -/
  | released (waiter : Nat) (outcome : Except Failure Unit)
  /-- A timer was set for a document. -/
  | armed (uri : String) (timer : Nat)
  /-- A timer was taken back. -/
  | disarmed (uri : String) (timer : Nat)
  /-- An event was passed on. -/
  | noticed (event : Service.Event)
  /-- The closing of the connection was made known. -/
  | closed (cause : Closure)

/-- A command that awaits its response. It is settled when its outcome is
fixed although it is still listed. -/
structure Pending where
  seq : Nat
  command : String
  settled : Bool
deriving DecidableEq, Repr

/-- The command, settled if it is the one with the given number. -/
def Pending.withdraw (seq : Nat) (p : Pending) : Pending :=
  if p.seq = seq then { p with settled := true } else p

/-- How far a transport takes commands that is about to close. -/
structure Limit where
  /-- The last number of a command that is taken. -/
  last : Nat
  /-- Why none is taken after it. -/
  cause : Closure
deriving Repr

/-- The numbering of commands and the commands that await a response. -/
structure Link where
  /-- The last number given out. -/
  last : Nat
  pending : List Pending
  /-- Why the connection closed, once it has. -/
  closed : Option Closure
  /-- How far commands are taken, if the transport refuses those that come later,
  also while the connection is not said to have closed. -/
  limit : Option Limit
deriving Repr

/-- Why the next command is refused, if it is. -/
def Link.refusal? (link : Link) : Option Closure :=
  link.closed.or (link.limit.bind fun l => if l.last ≤ link.last then some l.cause else none)

/-- An open document. -/
structure Session where
  uri : String
  file : String
  languageId : String
  version : Int
  text : List Char
deriving Repr

/-- One error check that the analysis server is still at work on: its number,
the generation it was written for, and the categories it has reported. -/
structure InFlight where
  seq : Nat
  generation : Nat
  reported : List String
deriving DecidableEq, Repr

/-- A call that waits for diagnostics. It is settled when the call was given
up although it is still listed. -/
structure Waiter where
  id : Nat
  settled : Bool
deriving DecidableEq, Repr

/-- The waiter, settled if it is the one with the given number. -/
def Waiter.withdraw (id : Nat) (w : Waiter) : Waiter :=
  if w.id = id then { w with settled := true } else w

/-- The error checks of one document. -/
structure CheckState where
  file : String
  /-- Counts the contents asked about. -/
  generation : Nat
  /-- The categories of the current generation not reported yet. -/
  outstanding : List String
  /-- The entries reported for the current generation, by category. -/
  merged : List (String × List Json)
  /-- The checks written and not completed, the oldest first. -/
  inFlight : List InFlight
  waiters : List Waiter
  /-- The published diagnostics are those of the current content. -/
  fresh : Bool
  /-- How often the current generation was asked for again. -/
  retries : Nat

/-- The error checks of a document nothing was asked about. -/
def CheckState.new (file : String) : CheckState :=
  ⟨file, 0, [], [], [], [], false, 0⟩

/-- What a relay is set up with. -/
structure Setup where
  /-- The categories that make up the diagnostics of a document. -/
  categories : List String
  /-- How long a scheduled check is held back. -/
  delay : Duration
  /-- Changes are sent as replacements of the whole text. -/
  fullSync : Bool
  root : Option String
  /-- Opening and changing a document schedules a check. -/
  autoCheck : Bool
  /-- How long a response may take. -/
  window : Option Duration
deriving Repr

/-- What a configuration sets up, for a project root. -/
def Setup.ofConfig (c : Config) (root : Option String) (autoCheck : Bool) : Setup :=
  { categories := c.categories, delay := c.checkDelay, fullSync := c.changeSync = .full, root
    autoCheck, window := some c.window }

/-- A relay. -/
structure Relay where
  setup : Setup
  link : Link
  sessions : List (String × Session)
  /-- The checks of each document, by URI. -/
  checks : List (String × CheckState)
  /-- The document whose checks are about a file. -/
  uriByFile : List (String × String)
  /-- The checks still running for documents that were closed, by file. -/
  abandoned : List (String × List InFlight)
  /-- The timer of each document that has one. -/
  scheduled : List (String × Nat)
  /-- The last timer given out. -/
  lastTimer : Nat
  /-- What was done and not yet collected, in order. -/
  outbox : List Effect

namespace Relay

/-- A relay over a fresh connection. -/
def new (setup : Setup) : Relay :=
  { setup, link := ⟨0, [], none, none⟩, sessions := [], checks := [], uriByFile := []
    abandoned := [], scheduled := [], lastTimer := 0, outbox := [] }

/-- Notes what was done. -/
def emit (e : Effect) (r : Relay) : Relay := { r with outbox := r.outbox ++ [e] }

/-- Notes a log line. -/
def log (level : LogLevel) (text : String) (r : Relay) : Relay := r.emit (.logged level text)

/-- The session of a document. -/
def session? (r : Relay) (uri : String) : Option Session := Table.get? uri r.sessions

/-- The URIs of the open documents, in order. -/
def uris (r : Relay) : List String := Table.keys r.sessions

/-- The checks of a document. -/
def check? (r : Relay) (uri : String) : Option CheckState := Table.get? uri r.checks

/-- Sets the checks of a document. -/
def setCheck (uri : String) (c : CheckState) (r : Relay) : Relay :=
  { r with checks := Table.put uri c r.checks }

/-- Changes the checks of a document, if it has any. -/
def mapCheck (uri : String) (f : CheckState → CheckState) (r : Relay) : Relay :=
  { r with checks := Table.update uri f r.checks }

/-- Changes the checks of every document. -/
def mapChecks (f : CheckState → CheckState) (r : Relay) : Relay :=
  { r with checks := r.checks.map fun e => (e.1, f e.2) }

/-- Sets the checks still running for a closed document's file. -/
def setAbandoned (file : String) (entries : List InFlight) (r : Relay) : Relay :=
  { r with abandoned := Table.put file entries r.abandoned }

end Relay

/-- The text of an integer. -/
def intText (n : Int) : String := String.ofList (Numeral.showInt n)

/-- The text of a natural number. -/
def natText (n : Nat) : String := String.ofList (Numeral.digits n)

end LanguageRelay
