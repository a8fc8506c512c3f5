/-!
# Log lines
-/

namespace LanguageRelay

/-- How important a log line is. -/
inductive LogLevel where
  | debug | info | warning | error
deriving DecidableEq, Repr

/-- The name of a level in a log. -/
def LogLevel.name : LogLevel → String
  | debug => "DEBUG" | info => "INFO" | warning => "WARNING" | error => "ERROR"

end LanguageRelay
