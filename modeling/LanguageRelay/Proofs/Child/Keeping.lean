import LanguageRelay.Child.Keeper
import LanguageRelay.Proofs.Service.Streams
/-!
# A child, kept one thing at a time

`Child` reads all there is to read whenever something happens, and has one
handler of messages. Here everything that can happen to a child and its
keeper is an `Act` of its own, and the acts come in any order: the child
writes while a frame it wrote before is still unread, a call that stops it
returns before its last frames were read, handlers come and go wrong when
they like. The reader of the output gets on by `turn`s, one frame each.

What came to pass stands in the record, deed by deed.
-/

namespace LanguageRelay

namespace Child

open Service

/-- What came to pass while a child was kept. -/
inductive Deed where
  /-- The child wrote to its output. -/
  | came (bytes : List UInt8)
  /-- A handler of messages was registered. -/
  | joined
  /-- A handler of the closing was registered. -/
  | enlisted
  /-- A frame was taken off the output. -/
  | took (reading : Except ProtocolFault Json)
  /-- A handler was given a message; it may have failed on it. -/
  | handed (hearer : Nat) (message : Json) (failed : Bool)
  /-- The connection closed. -/
  | shut (cause : Option Closure)
  /-- A handler was told that it closed. -/
  | told (listener : Nat) (cause : Option Closure)
  /-- A command was to be sent. -/
  | asked (message : Json)
  /-- A line was written to the input. -/
  | wrote (line : List Char)
  /-- The command was not sent. -/
  | refused (cause : Failure)
  /-- A call that starts the child returned: it had been started before. -/
  | started (call : String)
  /-- A call that stops it returned. -/
  | stopped (call : String)
  /-- A line of the error output was logged. -/
  | noted (text : String)

/-- A child with everyone around it. -/
structure Keeping where
  child : Child
  /-- How many handlers of messages are registered. -/
  hearers : Nat
  /-- How many handlers of the closing are. -/
  listeners : Nat
  /-- The calls that killed the child and wait for it to exit. -/
  killers : List String
  record : List Deed

/-- What can happen. -/
inductive Act where
  | join
  | enlist
  /-- The child writes to its output. -/
  | write (bytes : List UInt8)
  | endOutput
  | writeErrors (bytes : List UInt8)
  | endErrors
  | exit (code : Int)
  /-- The input is being closed from the side of the child. -/
  | closeInput
  | start (call : String)
  | send (message : Json)
  | stop (call : String) (patience : Duration)
  /-- The reader of the output gets on; should it hand a message on, some of
  the handlers fail on it. -/
  | turn (fails : Nat → Bool)
  /-- The reader of the error output gets on. -/
  | drain
  /-- Of the calls that wait for the child to exit, one sees that it did. -/
  | notice (i : Nat)
  /-- Of these calls, one loses patience and kills the child. -/
  | tire (i : Nat)
  /-- Of the calls that killed the child, one sees that it exited. -/
  | bury (i : Nat)
  /-- Of the calls that wait, one is given up. -/
  | abandon (i : Nat)
  /-- Of the calls that killed, one is. -/
  | desert (i : Nat)
  /-- Time passes. -/
  | pass (time : Int)

namespace Keeping

/-- A child right after it was started, with no handlers. -/
def begun (c : Child) : Keeping :=
  { child := { c with started := true, reader := .reading, draining := true, outbox := [] }
    hearers := 0, listeners := 0, killers := [], record := [] }

/-- Deeds are added to the record. -/
def note (deeds : List Deed) (k : Keeping) : Keeping := { k with record := k.record ++ deeds }

/-- The deeds when the connection closes, each handler being told. It closes
once. -/
def closing (listeners : Nat) (closed : Bool) (cause : Option Closure) : List Deed :=
  if closed then [] else .shut cause :: (List.range listeners).map fun i => .told i cause

/-- The connection closes, unless it is closed. -/
def shut (cause : Option Closure) (k : Keeping) : Keeping :=
  { k with child := { k.child with closed := true } }.note
    (closing k.listeners k.child.closed cause)

/-- The deeds when a frame was taken off: a message in it is handed to each
handler. -/
def handing (hearers : Nat) (fails : Nat → Bool) (reading : Except ProtocolFault Json) :
    List Deed :=
  .took reading ::
    match reading with
    | .error _ => []
    | .ok message => (List.range hearers).map fun i => .handed i message (fails i)

/-- The reader of the output gets on: it takes one frame off, or it learns
that no further one will come, or, after that, that the child exited. -/
def turn (fails : Nat → Bool) (k : Keeping) : Keeping :=
  match k.child.reader with
  | .reading =>
    match Frame.read k.child.output with
    | .ok (reading, rest) =>
      { k with child := { k.child with output := rest } }.note (handing k.hearers fails reading)
    | .error lack =>
      let reader := readerAfter k.child.outputEnded lack k.child.output
      { k with child := { k.child with reader } }
  | .waiting cause =>
    match k.child.exitCode with
    | some code =>
      { k with child := { k.child with reader := .ended } }.shut
        (some (cause.getD (.exited code)))
    | none => k
  | .ended => k

/-- A call that stops the child returns: what it wrote is read no more. -/
def release (call : String) (k : Keeping) : Keeping :=
  ({ k with child := { k.child with reader := .ended, draining := false } }.shut none).note
    [.stopped call]

/-- What is left of the error output, and what of it is logged. -/
def drained (c : Child) : Child × List String :=
  if c.draining then
    let (lines, rest, goesOn) := readLines c.errors
    let ended := !goesOn || c.errorsEnded
    let last := if goesOn && c.errorsEnded && !rest.isEmpty then [rest] else []
    ({ c with errors := if ended then [] else rest, draining := !ended },
      (lines ++ last).map errorLine)
  else (c, [])

/-- What an act leads to. Where it cannot happen, nothing does. -/
def perform (k : Keeping) : Act → Keeping
  | .join => { k with hearers := k.hearers + 1 }.note [.joined]
  | .enlist => { k with listeners := k.listeners + 1 }.note [.enlisted]
  | .write bytes =>
    if k.child.outputEnded then k
    else { k with child := { k.child with output := k.child.output ++ bytes } }.note [.came bytes]
  | .endOutput => { k with child := { k.child with outputEnded := true } }
  | .writeErrors bytes =>
    if k.child.errorsEnded then k
    else { k with child := { k.child with errors := k.child.errors ++ bytes } }
  | .endErrors => { k with child := { k.child with errorsEnded := true } }
  | .exit code =>
    if k.child.exitCode.isSome then k
    else { k with child := { k.child with exitCode := some code } }
  | .closeInput => { k with child := k.child.markInputClosing }
  | .start call => k.note [.started call]
  | .send message =>
    match (k.child.send message).2 with
    | none => k.note [.asked message, .wrote (encodeLine message)]
    | some cause => k.note [.asked message, .refused cause]
  | .stop call patience =>
    let stops := k.child.stops ++ [⟨call, k.child.now + patience.nanos⟩]
    { k with child := { k.child with inputClosing := true, stops } }
  | .turn fails => k.turn fails
  | .drain =>
    let (child, texts) := drained k.child
    { k with child }.note (texts.map .noted)
  | .notice i =>
    match k.child.stops[i]?, k.child.exitCode with
    | some s, some _ =>
      { k with child := { k.child with stops := k.child.stops.eraseIdx i } }.release s.call
    | _, _ => k
  | .tire i =>
    match k.child.stops[i]? with
    | some s =>
      if s.due ≤ k.child.now then
        { k with
          child := { k.child with kills := k.child.kills + 1, stops := k.child.stops.eraseIdx i }
          killers := k.killers ++ [s.call] }
      else k
    | none => k
  | .bury i =>
    match k.killers[i]?, k.child.exitCode with
    | some call, some _ => { k with killers := k.killers.eraseIdx i }.release call
    | _, _ => k
  | .abandon i => { k with child := { k.child with stops := k.child.stops.eraseIdx i } }
  | .desert i => { k with killers := k.killers.eraseIdx i }
  | .pass time => { k with child := { k.child with now := max k.child.now time } }

/-- What acts lead to, one after another. -/
def run (acts : List Act) (k : Keeping) : Keeping := acts.foldl perform k

end Keeping

end Child

end LanguageRelay
