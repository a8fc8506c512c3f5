import LanguageRelay.Number.Duration
import LanguageRelay.Text.Quoted
/-!
# The configuration

What a relay can be configured with, and the command that starts the analysis
server.
-/

namespace LanguageRelay

/-- How a change of a document is passed on: range by range, or as one
replacement of the whole text. -/
inductive ChangeSync where
  | incremental | full
deriving DecidableEq, Repr

/-- A configuration. -/
structure Config where
  /-- The executable of the analysis server. -/
  path : String
  arguments : List String
  logFile : Option String
  logVerbosity : Option String
  /-- How long a response may take, in thousandths of a second. -/
  timeout : Int
  /-- The categories that make up the diagnostics of a document. -/
  categories : List String
  /-- How long a scheduled check is held back, in thousandths of a second. -/
  delay : Int
  changeSync : ChangeSync
deriving DecidableEq, Repr

namespace Config

/-- The categories there are. -/
def knownCategories : List String := ["syntax", "semantic", "suggestion"]

/-- The configuration where nothing is configured. -/
def default : Config :=
  { path := "tsserver", arguments := [], logFile := none, logVerbosity := none, timeout := 30000
    categories := knownCategories, delay := 200, changeSync := .incremental }

/-- How long a response may take. -/
def window (c : Config) : Duration := .ofMillis c.timeout

/-- How long a scheduled check is held back. -/
def checkDelay (c : Config) : Duration := .ofMillis c.delay

/-- The times of the configuration are doubles when they are given in
seconds. -/
def hasSeconds (c : Config) : Bool := c.window.seconds.isFinite && c.checkDelay.seconds.isFinite

/-- A text that is given and not empty. -/
def given? (text : Option String) : Option String := text.filter fun s => !s.isEmpty

/-- The options that make the analysis server write a log. -/
def logOptions (c : Config) : List String :=
  match given? c.logFile with
  | some file => ["--logFile", file, "--logVerbosity", (given? c.logVerbosity).getD "normal"]
  | none => []

/-- The command that starts the analysis server. -/
def command (c : Config) : List String := c.path :: c.arguments ++ c.logOptions

end Config

end LanguageRelay
