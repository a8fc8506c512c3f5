import LanguageRelay.Child.Basic
/-!
# Reading what the child writes

Messages are read off the output and passed on one by one; a frame that
cannot be read is logged and dropped. When the output ends, the keeper waits
for the child to exit and then closes the connection. Lines of the error
output go to the log.
-/

namespace LanguageRelay

namespace Child

/-! ## The output -/

/-- Passes a message to the handler, or logs what is wrong with a frame. -/
def pass (c : Child) (m : Except ProtocolFault Json) : Child :=
  match m with
  | .error fault =>
    c.log .error ("dropping unreadable tsserver output: " ++ fault.message)
  | .ok message =>
    let failed := !c.setup.accepts message
    let c := c.emit (.passed message failed)
    if failed then c.log .error "tsserver message handler failed" else c

/-- Why the connection closes when the output has ended so; where it tells
nothing, the exit code will. -/
def causeOf : Service.Frame.End → Option Closure
  | .cut cause => some cause
  | _ => none

/-- Where the keeper stands after it read the frames there were. -/
def readerAfter (ended : Bool) (lack : Service.Frame.Lack) (rest : List UInt8) : Reader :=
  if ended || lack == .overlong || lack == .refused then
    .waiting (causeOf (Service.Frame.endOf lack rest))
  else .reading

/-- Reads the frames there are. -/
def readOutput (c : Child) : Child :=
  match c.reader with
  | .reading =>
    let (ms, lack, rest) := Service.Frame.readAll c.output
    { ms.foldl pass c with output := rest, reader := readerAfter c.outputEnded lack rest }
  | _ => c

/-- Closes the connection if the output is at its end and the child exited. -/
def closeIfExited (c : Child) : Child :=
  match c.reader, c.exitCode with
  | .waiting cause, some code =>
    { c with reader := .ended }.close (some (cause.getD (.exited code)))
  | _, _ => c

/-! ## The error output -/

/-- The longest line of the error output that is read. -/
def lineLimit : Nat := 65536

/-- The bytes before the first line feed, and those after it. -/
def splitLine : List UInt8 → Option (List UInt8 × List UInt8)
  | [] => none
  | 10 :: rest => some ([], rest)
  | b :: rest => (splitLine rest).map fun parts => (b :: parts.1, parts.2)

/-- What follows a line is shorter than the whole. -/
theorem length_splitLine {bytes line rest : List UInt8} (h : splitLine bytes = some (line, rest)) :
    line.length + 1 + rest.length = bytes.length := by
  fun_induction splitLine bytes generalizing line with
  | case1 => cases h
  | case2 =>
    cases h
    simp only [List.length_nil, List.length_cons]
    omega
  | case3 b tail _ ih =>
    obtain ⟨⟨p, r⟩, hp, he⟩ := Option.map_eq_some_iff.1 h
    cases he
    have hl : p.length + 1 + r.length = tail.length := ih hp
    simp only [List.length_cons]
    omega

/-- The log line for a line of the error output. -/
def errorLine (line : List UInt8) : String :=
  "tsserver stderr: " ++ String.ofList (trimEnd (Utf8.decodeLossy line))

/-- The lines there are, the bytes of the line that has not ended, and whether
reading can go on: it cannot beyond a line that is too long. -/
def readLines (bytes : List UInt8) : List (List UInt8) × List UInt8 × Bool :=
  match h : splitLine bytes with
  | none => ([], bytes, bytes.length ≤ lineLimit)
  | some (line, rest) =>
    if lineLimit < line.length then ([], [], false)
    else
      have : rest.length < bytes.length := by have := length_splitLine h; omega
      let (lines, last) := readLines rest
      (line :: lines, last)
termination_by bytes.length

/-- Logs the lines of the error output, the last one also if the output ends
before it does. -/
def drain (c : Child) : Child :=
  if c.draining then
    let (lines, rest, goesOn) := readLines c.errors
    let c := lines.foldl (fun c line => c.log .debug (errorLine line)) c
    if !goesOn then { c with errors := [], draining := false }
    else if c.errorsEnded then
      let c := if rest.isEmpty then c else c.log .debug (errorLine rest)
      { c with errors := [], draining := false }
    else { c with errors := rest }
  else c

/-- Reads what there is, the output first. -/
def attend (c : Child) : Child := c.readOutput.closeIfExited.drain

end Child

end LanguageRelay
