/-!
# Log entries

Assembling, running and listing can tell what they did. Each of them keeps the facts in its own
result; this is the common form in which such facts are shown.
-/

namespace MiniRisc

/-- How much an entry matters. -/
inductive LogLevel where
  /-- Detail of normal work. -/
  | debug
  /-- A turning point of normal work. -/
  | info
  /-- Something that the user should look at. -/
  | warn
deriving DecidableEq, Repr

/-- The level in capitals. -/
def LogLevel.label : LogLevel → String
  | debug => "DEBUG"
  | info => "INFO"
  | warn => "WARN"

/-- One entry of a log. -/
structure LogEntry where
  /-- How much it matters. -/
  level : LogLevel
  /-- What happened. -/
  message : String
  /-- Named values, each as text. -/
  fields : List (String × String)
deriving DecidableEq, Repr

end MiniRisc
