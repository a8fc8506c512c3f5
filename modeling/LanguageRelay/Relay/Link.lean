import LanguageRelay.Relay.Basic
/-!
# Commands and responses

Every command takes the next number of the connection, also one that is refused:
the connection has closed, or the transport is about to close and takes no more
(`limit`). A response settles the command it names, by number and
never by order of arrival; any other response is logged and dropped.
-/

namespace LanguageRelay

namespace Relay

/-- The number of the next command. -/
def nextSeq (r : Relay) : Nat := r.link.last + 1

/-- Takes the next number. -/
def takeSeq (r : Relay) : Relay := { r with link := { r.link with last := r.nextSeq } }

/-- Lists a command that awaits its response. -/
def expect (seq : Nat) (command : String) (r : Relay) : Relay :=
  { r with link := { r.link with pending := r.link.pending ++ [⟨seq, command, false⟩] } }

/-- The transport takes some more commands and then none, until the closing of the
connection is told. What has been said so once stays. -/
def limit (room : Nat) (cause : Closure) (r : Relay) : Relay :=
  { r with link := { r.link with limit := r.link.limit.or (some ⟨r.link.last + room, cause⟩) } }

/-- Writes a command nobody waits on. -/
def notify (name : String) (arguments : Json) (r : Relay) : Relay × Except Failure Nat :=
  let seq := r.nextSeq
  match r.link.refusal? with
  | some cause => (r.takeSeq, .error (.closed cause))
  | none => (r.takeSeq.emit (.sent ⟨seq, name, arguments⟩), .ok seq)

/-- What is said when a number is taken that still awaits a response. -/
def seqTaken (seq : Nat) (name : String) : String :=
  unreachableText "sequence number already pending" [("seq", .int seq), ("command", .str name)]

/-- Writes a command that awaits its response. -/
def ask (name : String) (arguments : Json) (r : Relay) : Relay × Except Failure Nat :=
  let seq := r.nextSeq
  if r.link.pending.any fun p => p.seq = seq then
    (r.takeSeq, .error (.unreachable (seqTaken seq name)))
  else
    match r.link.refusal? with
    | some cause => (r.takeSeq, .error (.closed cause))
    | none => ((r.takeSeq.expect seq name).emit (.sent ⟨seq, name, arguments⟩), .ok seq)

/-- Settles a listed command without a response: its caller gave it up. -/
def withdraw (seq : Nat) (r : Relay) : Relay :=
  { r with link := { r.link with pending := r.link.pending.map (Pending.withdraw seq) } }

/-- Takes a command off the list. -/
def unlist (seq : Nat) (r : Relay) : Relay :=
  { r with link := { r.link with pending := r.link.pending.filter fun p => p.seq ≠ seq } }

/-- The listed command a response is for. -/
def pendingFor? (r : Relay) (requestSeq : Int) : Option Pending :=
  r.link.pending.find? fun p => (p.seq : Int) = requestSeq

/-- The outcome a response gives to a command. -/
def outcomeOf (command : String) (response : Service.Response) : Except Failure Json :=
  if response.success then .ok response.body
  else
    match response.message with
    | some message =>
      if message.isEmpty then .error (.analysis command (command ++ " failed"))
      else .error (.analysis command message)
    | none => .error (.analysis command (command ++ " failed"))

/-- What is logged of a response that is for no listed command. -/
def strayResponse (response : Service.Response) : String :=
  "dropping " ++ (if response.command.isEmpty then "tsserver" else response.command)
    ++ " response for unknown request seq " ++ intText response.requestSeq

/-- Settles the command a response is for. -/
def resolve (response : Service.Response) (r : Relay) : Relay :=
  match r.pendingFor? response.requestSeq with
  | none => r.log .warning (strayResponse response)
  | some p =>
    let r := r.unlist p.seq
    if p.settled then r else r.emit (.answered p.seq (outcomeOf p.command response))

/-- Gives every listed command that is not settled the outcome of a closed
connection. -/
def rejectAll (cause : Closure) : List Pending → Relay → Relay
  | [], r => r
  | p :: rest, r =>
    rejectAll cause rest
      (if p.settled then r else r.emit (.answered p.seq (.error (.closed cause))))

/-- Takes all commands off the list and rejects them. -/
def rejectPending (cause : Closure) (r : Relay) : Relay :=
  let pending := r.link.pending
  let r := { r with link := { r.link with pending := [] } }
  if pending.isEmpty then r
  else
    rejectAll cause pending
      (r.log .error ("rejecting " ++ natText pending.length ++ " pending tsserver commands: "
        ++ cause.message))

end Relay

end LanguageRelay
