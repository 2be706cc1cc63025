/-!
# Log records

What the program reports about itself, apart from its output: a record has a level, the part of the
program it comes from and a message. Which records are shown is decided by their level alone.
-/

namespace Sexpr

/-- The levels of records, and of what is to be shown. -/
inductive LogLevel where
  | all
  | debug
  | info
  | warning
  | error
  | critical
deriving DecidableEq, Repr

namespace LogLevel

/-- The weight of a level. -/
def severity : LogLevel → Nat
  | all => 0
  | debug => 10
  | info => 20
  | warning => 30
  | error => 40
  | critical => 50

/-- The name of a level in log lines. -/
def name : LogLevel → String
  | all => "NOTSET"
  | debug => "DEBUG"
  | info => "INFO"
  | warning => "WARNING"
  | error => "ERROR"
  | critical => "CRITICAL"

/-- The level that a name chooses; two levels have a second name. -/
def ofName? : String → Option LogLevel
  | "NOTSET" => some all
  | "DEBUG" => some debug
  | "INFO" => some info
  | "WARN" => some warning
  | "WARNING" => some warning
  | "ERROR" => some error
  | "FATAL" => some critical
  | "CRITICAL" => some critical
  | _ => none

/-- Every level is chosen by its name. -/
theorem ofName?_name (level : LogLevel) : ofName? level.name = some level := by
  cases level <;> rfl

end LogLevel

/-- One report. -/
structure LogRecord where
  level : LogLevel
  origin : String
  message : String
deriving DecidableEq, Repr

namespace LogRecord

/-- The record as one line, without its line feed. -/
def text (record : LogRecord) : String :=
  s!"{record.level.name} {record.origin}: {record.message}"

/-- The record is shown when the level `shown` is chosen. -/
def isShown (shown : LogLevel) (record : LogRecord) : Bool :=
  shown.severity ≤ record.level.severity

end LogRecord

end Sexpr
