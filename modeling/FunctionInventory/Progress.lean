import FunctionInventory.Data.Value
import FunctionInventory.Log

/-!
# Reporting progress

Operations are announced when they start and when they end. Where no progress bar is
drawn, large batches are announced by a line of their own.
-/
namespace FunctionInventory

/-- How much is shown. -/
structure LogSettings where
  severity : Nat := LogLevel.info.severity
  barsDisabled : Bool := true
deriving DecidableEq, Inhabited

namespace LogSettings

/-- The names of levels with their severities. -/
def levelNames : List (String × Nat) := [
  ("DEBUG", 10), ("INFO", 20), ("WARNING", 30), ("WARN", 30), ("ERROR", 40), ("CRITICAL", 50),
  ("FATAL", 50), ("NOTSET", 0)]

/-- The capitals of a character, as far as they are ASCII letters. -/
def capital (c : CodePoint) : CodePoint :=
  if h : 97 ≤ c.val ∧ c.val ≤ 122 then ⟨c.val - 32, by omega⟩
  else if c.val = 0x131 then .ofChar 'I'
  else if c.val = 0x17f then .ofChar 'S'
  else c

/-- The severity that a name asks for, in whatever case it is written. -/
def severityOf (name : Text) : Nat :=
  let capitals := name.map capital
  ((levelNames.find? fun e => Text.ofString e.1 == capitals).map (·.2)).getD 20

/-- The settings under two variables of the environment and a terminal or none. -/
def ofEnvironment (level disable : Option Text) (terminal : Bool) : LogSettings where
  severity := severityOf (level.getD "INFO")
  barsDisabled :=
    ["1", "true", "yes"].any (fun word => Text.ofString word == (disable.getD []).map CodePoint.toLower) ||
      !terminal

/-- The least severity that is shown; an unset level counts as that of warnings. -/
def threshold (s : LogSettings) : Nat := if s.severity = 0 then 30 else s.severity

end LogSettings

namespace Progress

/-- Without a bar, batches larger than this are announced. -/
def announceThreshold : Nat := 100

/-- The description of a batch, or a general word for it. -/
def label (description : Text) : Text := if description.isEmpty then "Progress" else description

/-- Announces a batch of `count` units. -/
def announce (s : LogSettings) (description unit : Text) (count : Nat) : Logged Unit := do
  if s.barsDisabled && count > announceThreshold then
    Logged.note .info (("  " : Text) ++ label description ++
      (((": processing " ++ toString count ++ " ") : String) : Text) ++ unit ++ ("..." : Text))

/-- Reports the end of a batch that was counted by hand. -/
def completed (s : LogSettings) (description unit : Text) (done : Int) : Logged Unit := do
  if s.barsDisabled then
    Logged.note .info (("  " : Text) ++ label description ++
      (((": completed " ++ toString done ++ " ") : String) : Text) ++ unit ++ (" in " : Text) ++
      elapsed ++ ("s" : Text))

/-- How a detail of an operation is shown. -/
def detail : Value → Text
  | .null => "None"
  | .bool b => if b then "True" else "False"
  | .int i => toString i
  | .text t => t
  | _ => unspecified

/-- Announces an operation with its details. -/
def starting (operation : Text) (details : List (Text × Text)) : Logged Unit :=
  Logged.note .info (("▶ Starting " : Text) ++ operation ++
    details.flatMap fun (k, v) => (" " : Text) ++ k ++ ("=" : Text) ++ v)

def succeeded (operation : Text) : Logged Unit :=
  Logged.note .info (("✓ Completed " : Text) ++ operation ++ (" in " : Text) ++ elapsed ++ ("s" : Text))

def failed (operation cause : Text) : Logged Unit :=
  Logged.note .error (("✗ " : Text) ++ operation ++ (" failed after " : Text) ++ elapsed ++
    ("s: " : Text) ++ cause)

/-- Runs an operation and reports its start and its outcome. -/
def logOperation (operation : Text) (details : List (Text × Text)) (cause : ε → Text)
    (body : ExceptT ε Logged α) : ExceptT ε Logged α := ExceptT.mk do
  starting operation details
  let outcome ← body.run
  match outcome with
  | .ok _ => succeeded operation
  | .error e => failed operation (cause e)
  return outcome

end Progress

end FunctionInventory
