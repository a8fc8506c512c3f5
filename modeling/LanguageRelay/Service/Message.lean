import LanguageRelay.Failure
import LanguageRelay.Json.Lenient
/-!
# Messages of the analysis server

Whatever the analysis server sends is either the response to one command,
named by its sequence number, or an event.
-/

namespace LanguageRelay

namespace Service

/-- The answer to the command numbered `requestSeq`. -/
structure Response where
  seq : Int
  command : String
  requestSeq : Int
  success : Bool
  message : Option String
  body : Json

/-- News that answer no command. -/
structure Event where
  seq : Int
  event : String
  body : Json

/-- A message of the analysis server. -/
inductive Message where
  | response (r : Response)
  | event (e : Event)

/-- The response an object describes. -/
def Response.ofJson? (v : Json) : Option Response := do
  let seq ← v.defaulted Json.lenientInt? 0 "seq"
  let command ← v.defaulted Json.str? "" "command"
  let requestSeq ← v.required Json.lenientInt? "request_seq"
  let success ← v.required Json.lenientBool? "success"
  let message ← v.optional Json.str? "message"
  return ⟨seq, command, requestSeq, success, message, v.get "body"⟩

/-- The event an object describes. -/
def Event.ofJson? (v : Json) : Option Event := do
  let seq ← v.defaulted Json.lenientInt? 0 "seq"
  let event ← v.required Json.str? "event"
  return ⟨seq, event, v.get "body"⟩

/-- Reads a message. -/
def Message.ofJson (v : Json) : Except ProtocolFault Message :=
  match v with
  | .obj _ =>
    match v.get "type" with
    | .str "response" =>
      match Response.ofJson? v with
      | some r => .ok (.response r)
      | none => .error .malformedResponse
    | .str "event" =>
      match Event.ofJson? v with
      | some e => .ok (.event e)
      | none => .error .malformedEvent
    | kind => .error (.unexpectedKind kind)
  | _ => .error (.notAnObject v.kindName)

/-- The text of an optional string, or null. -/
def optionalText : Option String → Json
  | some s => .str s
  | none => .null

/-- The fields of a response. -/
def Response.toFields (r : Response) : Fields :=
  [("seq", .int r.seq), ("type", .str "response"), ("command", .str r.command),
    ("request_seq", .int r.requestSeq), ("success", .bool r.success),
    ("message", optionalText r.message), ("body", r.body)]

/-- The fields of an event. -/
def Event.toFields (e : Event) : Fields :=
  [("seq", .int e.seq), ("type", .str "event"), ("event", .str e.event), ("body", e.body)]

end Service

end LanguageRelay
