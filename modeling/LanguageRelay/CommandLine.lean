import LanguageRelay.Config.Build
/-!
# The command line

What a command line asks for: the version, help, or that the relay starts,
with options above the environment and the configuration file. `parse` reads
it and `run` says what comes of it.

Words are read from left to right, an option taking the next word as its
value whatever that looks like. Whatever is wrong with the words themselves is
told before anything else; the version and help come next, then values, then
words that are left over.
-/

namespace LanguageRelay

namespace CommandLine

/-- An option. -/
inductive Flag where
  | path | config | timeout | logLevel | logFile | version | help
deriving DecidableEq, Repr

/-- The options by name. -/
def flags : List (String × Flag) :=
  [("--tsserver-path", .path), ("--config", .config), ("--timeout-ms", .timeout),
    ("--log-level", .logLevel), ("--log-file", .logFile), ("--version", .version),
    ("--help", .help)]

/-- Whether an option takes a value. -/
def Flag.takesValue : Flag → Bool
  | version => false
  | help => false
  | _ => true

/-- What is wrong with a command line. -/
inductive Fault where
  | noSuchOption (name : String)
  | missingValue (name : String)
  | unexpectedValue (name : String)
  | leftOver (words : List String)
  | notInteger (name text : String)
  | unknownLevel
  /-- The log file cannot be opened. -/
  | logFile (name : String)
  | configuration (fault : ConfigFault)
  | file (fault : Config.FileFault)

/-- The levels that can be asked for. -/
def levels : List String := ["DEBUG", "INFO", "WARNING", "ERROR", "CRITICAL"]

/-- The wording of a fault of the relay's own. -/
def Fault.message? : Fault → Option String
  | unknownLevel => some ("log level must be one of " ++ ", ".intercalate levels)
  | configuration fault => fault.message?
  | _ => none

/-- What is told of a fault. -/
def Fault.text : Fault → String
  | noSuchOption name => "No such option: " ++ name
  | missingValue name => "Option " ++ quoted name ++ " requires an argument."
  | unexpectedValue name => "Option " ++ quoted name ++ " does not take a value."
  | leftOver words => "Got unexpected extra arguments (" ++ " ".intercalate words ++ ")"
  | notInteger name text =>
    "Invalid value for " ++ quoted name ++ ": " ++ quoted text ++ " is not a valid integer."
  | unknownLevel => (unknownLevel.message?).getD ""
  | logFile name => "The log file " ++ quoted name ++ " cannot be opened."
  | configuration fault => (fault.message?).getD "a number is infinite or too long to be written"
  | file .notText => "the configuration file is not UTF-8 text"
  | file .tooManyDigits => "a number in the configuration file has too many digits"

/-- The exit code for a fault: two for what the caller can mend on the command
line, one for anything else. -/
def Fault.exitCode : Fault → Nat
  | configuration .infinite => 1
  | configuration .tooManyDigits => 1
  | file _ => 1
  | logFile _ => 1
  | _ => 2

/-! ## Words -/

/-- What the words say: the options in the order given, and the words that
are no options. -/
structure Words where
  given : List (Flag × String)
  others : List String

/-- Puts an option in front. -/
def Words.cons (flag : Flag) (value : String) (w : Words) : Words :=
  { w with given := (flag, value) :: w.given }

/-- The name of a word, and the value behind its equals sign. -/
def splitWord (word : List Char) : String × Option String :=
  let name := word.takeWhile (· != '=')
  if name.length < word.length then
    (String.ofList name, some (String.ofList (word.drop (name.length + 1))))
  else (String.ofList name, none)

/-- A word that is read as an option. -/
def isOption (word : String) : Bool := word.startsWith "-" && word.length > 1

/-- Reads words; those after two dashes are no options. -/
def scan : List String → Except Fault Words
  | [] => .ok ⟨[], []⟩
  | word :: rest =>
    if word = "--" then .ok ⟨[], rest⟩
    else if isOption word then
      let (name, attached) := splitWord word.toList
      match Table.get? name flags with
      | none => .error (.noSuchOption name)
      | some flag =>
        if flag.takesValue then
          match attached, rest with
          | some value, rest => (scan rest).map (Words.cons flag value)
          | none, value :: rest => (scan rest).map (Words.cons flag value)
          | none, [] => .error (.missingValue name)
        else if attached.isSome then .error (.unexpectedValue name)
        else (scan rest).map (Words.cons flag "")
    else (scan rest).map fun w => { w with others := word :: w.others }

/-- The value of an option; the last one given counts. -/
def Words.value? (w : Words) (flag : Flag) : Option String :=
  (w.given.reverse.find? fun g => g.1 == flag).map Prod.snd

/-! ## Requests -/

/-- What the relay is to start with. -/
structure Options where
  path : Option String
  config : Option String
  timeout : Option Int
  logLevel : String
  logFile : Option String
deriving DecidableEq, Repr

/-- What a command line asks for. -/
inductive Request where
  | version
  | help
  | start (options : Options)
deriving DecidableEq, Repr

/-- The time a response may take, if it is given. -/
def timeoutOf (w : Words) : Except Fault (Option Int) :=
  match w.value? .timeout with
  | none => .ok none
  | some text =>
    match Numeral.readInt? text.toList with
    | some n => .ok (some n)
    | none => .error (.notInteger "--timeout-ms" text)

/-- The options the words give. -/
def optionsOf (w : Words) : Except Fault Options := do
  let timeout ← timeoutOf w
  if !w.others.isEmpty then .error (.leftOver w.others)
  return {
    path := w.value? .path
    config := w.value? .config
    timeout
    logLevel := (w.value? .logLevel).getD "INFO"
    logFile := w.value? .logFile }

/-- What a command line asks for. Of the version and help the first one given
counts. -/
def parse (args : List String) : Except Fault Request := do
  let w ← scan args
  match (w.given.map Prod.fst).find? fun flag => !flag.takesValue with
  | some .version => return .version
  | some _ => return .help
  | none => return .start (← optionsOf w)

/-- The configuration file a command line names, or the one that is read where
none is named. -/
def configFile (args : List String) : String :=
  match parse args with
  | .ok (.start options) => options.config.getD Config.defaultFile
  | _ => Config.defaultFile

/-! ## Running -/

/-- The version of the relay. -/
def version : String := "0.1.0"

/-- The text of help. -/
def help : String :=
  "Usage: tsbridge [OPTIONS]\n\n  Run the TypeScript language server bridge.\n\nOptions:\n"
    ++ "  --tsserver-path TEXT   tsserver executable or script.\n"
    ++ "  --config PATH          Configuration file (default: ./tsbridge.toml).\n"
    ++ "  --timeout-ms INTEGER   Per-request tsserver timeout in milliseconds.\n"
    ++ "  --log-level TEXT       [default: INFO]\n  --log-file PATH\n  --version\n"
    ++ "  --help                 Show this message and exit.\n"

/-- What comes of a command line. -/
structure Outcome where
  /-- What is printed. -/
  output : String
  /-- The log file that is written, with its lines. -/
  log : Option (String × List String)
  /-- The configuration the relay runs with. -/
  config : Option Config
  /-- The relay starts. -/
  starts : Bool
  fault : Option Fault

/-- Nothing but an output. -/
def printing (output : String) : Outcome := ⟨output, none, none, false, none⟩

/-- Nothing but a fault. -/
def failing (fault : Fault) : Outcome := ⟨"", none, none, false, some fault⟩

/-- The level asked for, if there is such a one. -/
def level? (text : String) : Option String :=
  let word := String.ofList ((trim text.toList).map asciiUppercase)
  if levels.contains word then some word else none

/-- The line that says what the relay runs. -/
def startLine (c : Config) : String :=
  "INFO tsbridge.cli: tsbridge " ++ version ++ " using " ++ c.path

/-- The lines of the log at a level. -/
def logLines (level : String) (c : Config) : List String :=
  if level = "DEBUG" ∨ level = "INFO" then [startLine c] else []

/-- The settings the options give. -/
def overridesOf (o : Options) : Settings :=
  [("path", (o.path.map Setting.str).getD .null),
    ("request_timeout_ms", (o.timeout.map Setting.int).getD .null)]

/-- The configuration the relay is to start with. -/
def configOf (o : Options) (env : List (String × String)) (file : Option (List UInt8)) :
    Except Fault Config := do
  let settings ← (Config.load file).mapError .file
  (Config.build settings env (overridesOf o)).mapError .configuration

/-- The log file that is opened: none before the level is known to be one. -/
def Options.openedLog (o : Options) : Option String :=
  if (level? o.logLevel).isSome then o.logFile else none

/-- The log file that a command line has opened, if it comes that far. -/
def logFile? (args : List String) : Option String :=
  match parse args with
  | .ok (.start options) => options.openedLog
  | _ => none

/-- Starts the relay with a log at a level. -/
def startAt (level : String) (o : Options) (env : List (String × String))
    (file : Option (List UInt8)) : Outcome :=
  match configOf o env file with
  | .error fault => { failing fault with log := o.logFile.map fun name => (name, []) }
  | .ok c =>
    { output := ""
      log := o.logFile.map fun name => (name, logLines level c)
      config := some c
      starts := true
      fault := none }

/-- Starts the relay. The log is begun before the configuration is read;
`refused` names the log file if it cannot be opened. -/
def start (o : Options) (env : List (String × String)) (file : Option (List UInt8))
    (refused : Option String) : Outcome :=
  match level? o.logLevel, refused with
  | none, _ => failing .unknownLevel
  | some _, some name => failing (.logFile name)
  | some level, none => startAt level o env file

/-- What comes of a command line in an environment, with the content of the
configuration file if there is one, and the log file if it cannot be
opened. -/
def run (args : List String) (env : List (String × String)) (file : Option (List UInt8))
    (refused : Option String) : Outcome :=
  match parse args with
  | .error fault => failing fault
  | .ok .version => printing ("tsbridge " ++ version ++ "\n")
  | .ok .help => printing help
  | .ok (.start options) => start options env file refused

end CommandLine

end LanguageRelay
