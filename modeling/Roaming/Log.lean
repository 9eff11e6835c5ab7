/-!
# Log lines

What the library reports while it works, each line with its level.
-/

set_option autoImplicit false
set_option relaxedAutoImplicit false

namespace Roaming

/-- How serious a log line is. -/
inductive Level where
  | debug
  | info
  | warn
  | error
deriving DecidableEq, Repr

/-- The name of a level. -/
def Level.name : Level → String
  | .debug => "DEBUG"
  | .info => "INFO"
  | .warn => "WARN"
  | .error => "ERROR"

/-- One line of the log. -/
structure LogLine where
  level : Level
  text : String
deriving DecidableEq, Repr

namespace LogLine

/-- A line for those who look into details. -/
def debug (text : String) : LogLine := ⟨.debug, text⟩

/-- A line about a change of state. -/
def info (text : String) : LogLine := ⟨.info, text⟩

/-- A line about a fault that was survived. -/
def warn (text : String) : LogLine := ⟨.warn, text⟩

/-- A line about a fault that is reported to the caller. -/
def error (text : String) : LogLine := ⟨.error, text⟩

/-- The line as it is written: its level, a blank, its text. -/
def render (l : LogLine) : String := l.level.name ++ " " ++ l.text

end LogLine

/-- Log lines, oldest first. -/
abbrev Log := List LogLine

end Roaming
