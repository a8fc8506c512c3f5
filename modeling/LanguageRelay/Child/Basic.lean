import LanguageRelay.Log
import LanguageRelay.Number.Duration
import LanguageRelay.Service.Command
import LanguageRelay.Service.Frame
/-!
# The analysis server as a child process

A child process reads commands, one a line, from its input, writes framed
messages to its output and text to its error output, and ends with an exit
code. Its keeper starts it, passes its messages on, and stops it; the keeper
tells once that the connection closed.

`Child` holds both: what the child wrote that the keeper has not read yet,
and how far the keeper has come. What the keeper did to the world outside
stands in the outbox, in order.
-/

namespace LanguageRelay

namespace Child

/-- What a child is made with. -/
structure Setup where
  /-- The command that starts it, with its arguments. -/
  command : List String
  /-- The folder it runs in. -/
  folder : Option String
  /-- The environment variables it gets beside those there are. -/
  environment : List (String × String)
  /-- Why it cannot be started, if it cannot. -/
  startError : Option String
  /-- The code it exits with when its input is closed, if it then does. -/
  exitOnClose : Option Int
  /-- Whether the handler of messages gets through one. -/
  accepts : Json → Bool

/-- What the keeper did. -/
inductive Effect where
  | logged (level : LogLevel) (text : String)
  /-- The command was run. -/
  | launched
  /-- A line was written to the input. -/
  | wrote (line : List Char)
  /-- The handler was given a message; it may have failed on it. -/
  | passed (message : Json) (failed : Bool)
  /-- The connection closed; the cause is left out when it was stopped. -/
  | closed (cause : Option Closure)
  /-- A call of the keeper ended. -/
  | finished (call : String) (outcome : Except Failure Unit)

/-- How far the keeper has read the output. -/
inductive Reader where
  /-- It reads on. -/
  | reading
  /-- The output is at its end, or cannot be read on; the keeper waits for the
  child to exit. -/
  | waiting (cause : Option Closure)
  /-- The keeper has done with it. -/
  | ended
deriving DecidableEq, Repr

/-- A call that stops the child, waiting for it to exit until its time comes. -/
structure Stop where
  call : String
  due : Int
deriving DecidableEq, Repr

end Child

/-- A child process and its keeper. -/
structure Child where
  setup : Child.Setup
  /-- The bytes written to the output and not read. -/
  output : List UInt8
  /-- No more will be written to the output. -/
  outputEnded : Bool
  /-- The bytes written to the error output and not read. -/
  errors : List UInt8
  /-- No more will be written to the error output. -/
  errorsEnded : Bool
  /-- The code the child exited with, once it has. -/
  exitCode : Option Int
  /-- How often the child was killed. -/
  kills : Nat
  /-- The input of the child is being closed. -/
  inputClosing : Bool
  /-- The child was started. -/
  started : Bool
  /-- The connection is closed. -/
  closed : Bool
  reader : Child.Reader
  /-- The keeper reads the error output. -/
  draining : Bool
  /-- The calls that wait for the child to exit, in the order they were made. -/
  stops : List Child.Stop
  now : Int
  outbox : List Child.Effect

namespace Child

/-- A child not started yet; there is none without a command. -/
def new? (setup : Setup) : Option Child :=
  if setup.command.isEmpty then none
  else
    some
      { setup, output := [], outputEnded := false, errors := [], errorsEnded := false
        exitCode := none, kills := 0, inputClosing := false, started := false, closed := false
        reader := .ended, draining := false, stops := [], now := 0, outbox := [] }

/-- Notes what was done. -/
def emit (e : Effect) (c : Child) : Child := { c with outbox := c.outbox ++ [e] }

/-- Notes a log line. -/
def log (level : LogLevel) (text : String) (c : Child) : Child := c.emit (.logged level text)

/-- A call of the keeper ends. -/
def finish (call : String) (outcome : Except Failure Unit) (c : Child) : Child :=
  c.emit (.finished call outcome)

/-- The cause of a closing in a log line. -/
def causeText (cause : Option Closure) : String := (cause.map Closure.message).getD "None"

/-- The connection closes; it does so once. -/
def close (cause : Option Closure) (c : Child) : Child :=
  if c.closed then c
  else
    ({ c with closed := true }.log .warning
      ("tsserver connection closed: " ++ causeText cause)).emit (.closed cause)

end Child

end LanguageRelay
