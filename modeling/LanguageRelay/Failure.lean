import LanguageRelay.Json.Value
import LanguageRelay.Number.Duration
/-!
# Failures

Why a call fails. Each cause is a constructor, its wording is in one
`message` function per kind of cause. A fault of a value (`ValueFault`) has
no wording of its own: only its kind is part of an answer.
-/

namespace LanguageRelay

/-- Why a connection closed. -/
inductive Closure where
  /-- Nobody said why. -/
  | unexplained
  /-- The other side gave a reason. -/
  | because (reason : String)
  /-- The analysis server ended. -/
  | exited (code : Int)
  /-- The stream ended inside a header block. -/
  | insideHeader
  /-- The stream ended inside a message body. -/
  | insideBody
  /-- The analysis server was never started, or is gone. -/
  | notRunning
  /-- The input of the analysis server is being closed. -/
  | inputClosed
  /-- The analysis server could not be started. -/
  | startFailed (reason : String)
deriving DecidableEq, Repr

/-- The wording of a closure. -/
def Closure.message : Closure → String
  | unexplained => "tsserver connection closed"
  | because reason => reason
  | exited code => "tsserver exited with code " ++ String.ofList (Numeral.showInt code)
  | insideHeader => "tsserver stream closed inside a header"
  | insideBody => "tsserver stream closed inside a message body"
  | notRunning => "tsserver is not running"
  | inputClosed => "tsserver stdin is closed"
  | startFailed reason => "failed to start tsserver: " ++ reason

/-- The closure with a given reason; an empty one explains nothing. -/
def Closure.ofReason : Option String → Closure
  | some reason => if reason.isEmpty then unexplained else because reason
  | none => unexplained

/-- What is wrong with a message of the analysis server. -/
inductive ProtocolFault where
  | invalidLocation (location : Json)
  | invalidSpan (span : Json)
  | spanWithoutFile (span : Json)
  | overlappingEdits (line character : Nat)
  | notAnObject (kind : String)
  | malformedResponse
  | malformedEvent
  | unexpectedKind (kind : Json)
  | invalidLength
  | invalidBody
  | invalidPayload
  | diagnosticWithoutSpan (entry : Json)
  | malformedGroup (group : Json)
deriving Repr

/-- The wording of a protocol fault. -/
def ProtocolFault.message : ProtocolFault → String
  | invalidLocation location => "invalid tsserver location: " ++ location.literal
  | invalidSpan span => "invalid tsserver span: " ++ span.literal
  | spanWithoutFile span => "tsserver span without file: " ++ span.literal
  | overlappingEdits line character =>
    "overlapping edits at " ++ String.ofList (Numeral.digits line) ++ ":"
      ++ String.ofList (Numeral.digits character)
  | notAnObject kind => "tsserver message must be an object, got " ++ kind
  | malformedResponse => "malformed tsserver response"
  | malformedEvent => "malformed tsserver event"
  | unexpectedKind kind => "unexpected tsserver message type: " ++ kind.literal
  | invalidLength => "Invalid tsserver Content-Length"
  | invalidBody => "Invalid tsserver JSON"
  | invalidPayload => "Invalid tsserver message payload"
  | diagnosticWithoutSpan entry => "diagnostic without span: " ++ entry.literal
  | malformedGroup group => "malformed rename location group: " ++ group.literal

/-- How the caller broke the rules of use. -/
inductive StateFault where
  /-- The operation needs an open document. -/
  | notOpen (operation uri : String)
  /-- The completion item carries no handle to resolve. -/
  | noHandle (label : String)
deriving DecidableEq, Repr

/-- The wording of a state fault. -/
def StateFault.message : StateFault → String
  | notOpen operation uri => operation ++ " on " ++ uri ++ " which is not open"
  | noHandle label => "completion item " ++ quoted label ++ " has no resolvable handle"

/-- How a value fails to be what is needed. -/
inductive ValueFault where
  /-- The right type, but no admissible value. -/
  | badValue
  /-- A type that cannot be used so. -/
  | wrongType
  /-- A key is missing. -/
  | missingKey
  /-- The value has no fields to ask for. -/
  | noFields
  /-- An infinite number where an integer is needed. -/
  | infinite
deriving DecidableEq, Repr

/-- Why a call fails. -/
inductive Failure where
  | closed (cause : Closure)
  | protocol (fault : ProtocolFault)
  /-- The analysis server did not answer in time. -/
  | timedOut (command : String) (seq : Nat) (window : Duration)
  | invalidState (fault : StateFault)
  /-- The analysis server answered that the command failed. -/
  | analysis (command message : String)
  | value (fault : ValueFault)
  /-- A path that should never be taken was taken. -/
  | unreachable (reason : String)
  | cancelled
deriving Repr

/-- The failure of a fault whose wording shows a value. If the value cannot be
written, neither can the wording, and that is how it fails. -/
def Failure.showing (shown : Json) (fault : ProtocolFault) : Failure :=
  if shown.isWritable then .protocol fault else .value .badValue

/-- The wording of a failure, where it has one. -/
def Failure.message? : Failure → Option String
  | closed cause => some cause.message
  | protocol fault => some fault.message
  | timedOut command seq window =>
    some ("tsserver command " ++ quoted command ++ " (seq " ++ String.ofList (Numeral.digits seq)
      ++ ") timed out after " ++ window.brief ++ "s")
  | invalidState fault => some fault.message
  | analysis _ message => some message
  | value _ => none
  | unreachable reason => some reason
  | cancelled => none

/-! ## Unreachable paths -/

/-- Facts by name, in the order of their names. -/
def factsText (facts : Fields) : String :=
  if facts.isEmpty then ""
  else
    " (" ++ String.intercalate ", "
      ((facts.mergeSort fun f g => f.1 ≤ g.1).map fun f => f.1 ++ "=" ++ f.2.literal) ++ ")"

/-- What is said on a path that should never be taken. -/
def unreachableText (reason : String) (facts : Fields) : String :=
  (if reason.isEmpty then "never() marker reached" else reason) ++ factsText facts

/-- A value that must be there. -/
def demand (value : Json) (reason : String) (facts : Fields) : Except Failure Json :=
  match value with
  | .null =>
    .error (.unreachable
      (unreachableText (if reason.isEmpty then "required value is None" else reason) facts))
  | v => .ok v

end LanguageRelay
