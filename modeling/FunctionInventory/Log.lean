import FunctionInventory.Text

/-!
# The log

Operations note what they do. Everything is noted; what is shown depends on the level
that is asked for. Durations are written as `T`, since a pure run has no clock.
-/
namespace FunctionInventory

inductive LogLevel where
  | debug
  | info
  | warning
  | error
  | critical
deriving DecidableEq, Repr, Inhabited

namespace LogLevel

def name : LogLevel → String
  | debug => "DEBUG"
  | info => "INFO"
  | warning => "WARNING"
  | error => "ERROR"
  | critical => "CRITICAL"

def severity : LogLevel → Nat
  | debug => 10
  | info => 20
  | warning => 30
  | error => 40
  | critical => 50

end LogLevel

structure LogEntry where
  level : LogLevel
  text : Text
deriving DecidableEq, Inhabited

/-- A computation that writes to the log. -/
abbrev Logged := StateM (List LogEntry)

namespace Logged

def note (level : LogLevel) (text : Text) : Logged Unit := modify (· ++ [⟨level, text⟩])

/-- The outcome of a computation, and what it noted. -/
def outcome (x : Logged α) : α × List LogEntry := x.run []

end Logged

/-- The entries that are at least as severe as `severity`. -/
def shownAt (severity : Nat) (log : List LogEntry) : List LogEntry :=
  log.filter fun e => severity ≤ e.level.severity

/-- Stands in messages for the details of a failure that is not the system's. -/
def unspecified : Text := "<error>"

/-- Stands in messages for the time that was taken. -/
def elapsed : Text := "T"

end FunctionInventory
