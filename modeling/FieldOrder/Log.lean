/-
# Log records

A check tells, beside its findings, what it passed over and why. A record has a
level and a message.

Key definitions: `LogRecord`.
-/

namespace FieldOrder

/-- How much a log record matters. -/
inductive LogLevel where
  | debug
  | warn
  deriving DecidableEq, Repr

/-- The name of a level. -/
def LogLevel.text : LogLevel → String
  | .debug => "DEBUG"
  | .warn => "WARN"

/-- One thing worth telling. -/
structure LogRecord where
  level : LogLevel
  message : String
  deriving DecidableEq, Repr

namespace LogRecord

def debug (message : String) : LogRecord := ⟨.debug, message⟩

def warn (message : String) : LogRecord := ⟨.warn, message⟩

/-- The record on one line. -/
def text (r : LogRecord) : String := r.level.text ++ " " ++ r.message

end LogRecord
end FieldOrder
