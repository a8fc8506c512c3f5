import LanguageRelay.CommandLine
/-!
# The program

Reads the command line, the environment and the configuration file, and does
what comes of them. Serving an editor over its streams is for the program
that embeds the library; the program here ends where that begins.
-/

namespace LanguageRelay

namespace Program

/-- The content of a file, if it can be read. -/
def contentOf (path : String) : IO (Option (List UInt8)) := do
  try
    let bytes ← IO.FS.readBinFile path
    return some bytes.toList
  catch _ => return none

/-- The variables of the environment that are set, of those that count. -/
def environment : IO (List (String × String)) := do
  let names := [Config.pathVariable, Config.timeoutVariable]
  let values ← names.mapM fun name => IO.getEnv name
  return (names.zip values).filterMap fun v => v.2.map fun text => (v.1, text)

/-- The log file, if there is one that cannot be opened. -/
def refusedLog (log : Option String) : IO (Option String) := do
  match log with
  | none => return none
  | some path =>
    try
      let _ ← IO.FS.Handle.mk path .append
      return none
    catch _ => return some path

/-- Adds lines to a log file. -/
def writeLog (log : Option (String × List String)) : IO Unit := do
  match log with
  | none => return
  | some (path, lines) =>
    let handle ← IO.FS.Handle.mk path .append
    for line in lines do handle.putStrLn line

/-- Does what comes of a command line; the answer is the exit code. -/
def run (args : List String) : IO UInt32 := do
  let file ← contentOf (CommandLine.configFile args)
  let refused ← refusedLog (CommandLine.logFile? args)
  let outcome := CommandLine.run args (← environment) file refused
  writeLog outcome.log
  IO.print outcome.output
  match outcome.fault with
  | none => return 0
  | some fault =>
    IO.eprintln ("Error: " ++ fault.text)
    return fault.exitCode.toUInt32

end Program

end LanguageRelay

/-- Runs the program. -/
def main (args : List String) : IO UInt32 := LanguageRelay.Program.run args
