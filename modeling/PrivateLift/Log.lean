/-!
# Log entries

A run of the protocol reports its progress. The report mentions counts, names and widths, never the
content of a row.
-/

namespace PrivateLift

/-- The importance of a log entry. -/
inductive LogLevel where
  | error
  | info
  | debug
  deriving DecidableEq, Repr

/-- The name of a level at the start of a line. -/
def LogLevel.name : LogLevel → String
  | error => "ERROR"
  | info => "INFO"
  | debug => "DEBUG"

/-- One entry of the log. -/
structure LogEntry where
  level : LogLevel
  text : String
  deriving DecidableEq, Repr

namespace LogEntry

/-- The line of an entry. -/
def render (e : LogEntry) : String := s!"{e.level.name} {e.text}"

def info (text : String) : LogEntry := ⟨.info, text⟩

def debug (text : String) : LogEntry := ⟨.debug, text⟩

/-- The entry made when a step ends with an error. -/
def failure (message : String) : LogEntry := ⟨.error, s!"error={message}"⟩

end LogEntry

end PrivateLift
