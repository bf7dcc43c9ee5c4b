import FunctionInventory.FileSystem
import FunctionInventory.Text.Integer
import FunctionInventory.Text.Similarity

/-!
# Command-line arguments

The arguments are split into options and the rest, and the values of the options are
checked. Options may come before and behind the paths they apply to; two dashes end them.
-/
namespace FunctionInventory

namespace CommandLine

/-- What can be wrong with a command line. -/
inductive UsageError where
  | noSuchOption (name : Text) (similar : List Text)
  | noSuchCommand (name : Text) (similar : List Text)
  | missingCommand
  | needsValue (option : Text)
  | takesNoValue (option : Text)
  | missingPaths
  | badLanguage (value : Text)
  | badInteger (value : Text)
  | noSuchPath (value : Text)
  | fileAsDirectory (value : Text)
deriving DecidableEq, Inhabited

/-- A hint at words that may have been meant. -/
def suggestion (similar : List Text) : Text :=
  match similar with
  | [] => []
  | [one] => (" Did you mean " : Text) ++ Text.quoted one ++ ("?" : Text)
  | several =>
    let sorted := several.mergeSort fun v w => !Text.lt w v
    (" (Did you mean one of: " : Text) ++
      ((sorted.map Text.quoted).intersperse (", " : Text)).flatten ++ ("?)" : Text)

def UsageError.message : UsageError → Text
  | noSuchOption name similar =>
    ("No such option " : Text) ++ Text.quoted name ++ ("." : Text) ++ suggestion similar
  | noSuchCommand name similar =>
    ("No such command " : Text) ++ Text.quoted name ++ ("." : Text) ++ suggestion similar
  | missingCommand => "Missing command."
  | needsValue option => ("Option " : Text) ++ Text.quoted option ++ (" requires an argument." : Text)
  | takesNoValue option =>
    ("Option " : Text) ++ Text.quoted option ++ (" does not take a value." : Text)
  | missingPaths => "Missing argument 'PATHS...'."
  | badLanguage value => ("Invalid value for '--language': " : Text) ++ Text.quoted value ++
      (" is not one of 'auto', 'typescript', 'tsx', 'javascript'." : Text)
  | badInteger value => ("Invalid value for '--workers': " : Text) ++ Text.quoted value ++
      (" is not a valid integer." : Text)
  | noSuchPath value => ("Invalid value for 'PATHS...': Path " : Text) ++ Text.quoted value ++
      (" does not exist." : Text)
  | fileAsDirectory value => ("Invalid value for '--cache-dir': Directory " : Text) ++
      Text.quoted value ++ (" is a file." : Text)

/-- Whether the usage of the command is shown with the message. -/
def UsageError.showsUsage : UsageError → Bool
  | needsValue _ | takesNoValue _ => false
  | _ => true

/-- An option and whether a value belongs to it. -/
structure OptionSpec where
  name : Text
  takesValue : Bool := false

/-- The options that were given, in order, and the other arguments. -/
structure Split where
  options : List (Text × Text) := []
  arguments : List Text := []

def Split.give (s : Split) (name value : Text) : Split :=
  { s with options := s.options ++ [(name, value)] }

/-- Whether an option was given. -/
def Split.has (s : Split) (name : String) : Bool := s.options.any fun o => o.1 == Text.ofString name

/-- The last value given to an option. -/
def Split.value? (s : Split) (name : Text) : Option Text :=
  (s.options.reverse.find? fun o => o.1 == name).map (·.2)

def dash : CodePoint := .ofChar '-'

def isOption (arg : Text) : Bool := arg.head? == some dash && arg.length > 1

/-- The name of an option and the value behind an equals sign. -/
def splitValue (arg : Text) : Text × Option Text :=
  match arg.span (· != .ofChar '=') with
  | (name, _ :: value) => (name, some value)
  | (name, []) => (name, none)

/-- Splits arguments. With `mixed` unset the first argument that is no option ends the
options. -/
def split (specs : List OptionSpec) (mixed : Bool) : List Text → Split → Except UsageError Split
  | [], s => .ok s
  | arg :: rest, s =>
    if arg == [dash, dash] then .ok { s with arguments := s.arguments ++ rest }
    else if isOption arg then
      let (name, given) := splitValue arg
      match specs.find? fun o => o.name == name with
      | none =>
        if arg.take 2 == [dash, dash] then
          .error (.noSuchOption name (Text.closeMatches name (specs.map (·.name))))
        else .error (.noSuchOption (arg.take 2) [])
      | some o =>
        if o.takesValue then
          match given, rest with
          | some value, rest => split specs mixed rest (s.give name value)
          | none, value :: rest => split specs mixed rest (s.give name value)
          | none, [] => .error (.needsValue name)
        else if given.isSome then .error (.takesNoValue name)
        else split specs mixed rest (s.give name [])
    else if mixed then split specs mixed rest { s with arguments := s.arguments ++ [arg] }
    else .ok { s with arguments := arg :: rest }

def analyzeOptions : List OptionSpec := [
  ⟨"--language", true⟩, ⟨"--resolve", false⟩, ⟨"--workers", true⟩, ⟨"--cache-dir", true⟩,
  ⟨"--compact", false⟩, ⟨"--help", false⟩]

def programOptions : List OptionSpec := [⟨"--version", false⟩, ⟨"--help", false⟩]

/-- Variables of the environment that stand for options. -/
structure Environment where
  workers : Option Text := none
  cacheDirectory : Option Text := none

/-- What the analyze command is asked to do. -/
structure Request where
  paths : List Text := []
  language : Option Text := none
  resolve : Bool := false
  workers : Option Int := none
  cacheDirectory : Option Text := none
  compact : Bool := false
deriving Inhabited

def setLanguage (r : Request) (value : Text) : Except UsageError Request :=
  if value == "auto" then .ok { r with language := none }
  else if ["typescript", "tsx", "javascript"].any fun l => Text.ofString l == value then
    .ok { r with language := some value }
  else .error (.badLanguage value)

def setWorkers (r : Request) (value : Text) : Except UsageError Request :=
  match Text.toInt? value with
  | some n => .ok { r with workers := some n }
  | none => .error (.badInteger value)

def setCacheDirectory (disk : FileSystem) (r : Request) (value : Text) : Except UsageError Request :=
  match disk.statusAsWritten value with
  | .ok (.file _) => .error (.fileAsDirectory value)
  | _ => .ok { r with cacheDirectory := some value }

def setPaths (disk : FileSystem) (r : Request) (paths : List Text) : Except UsageError Request :=
  if paths.isEmpty then .error .missingPaths
  else match paths.find? fun p => (disk.statusAsWritten p).toOption.isNone with
    | some p => .error (.noSuchPath p)
    | none => .ok { r with paths }

/-- Takes over the last value of an option. -/
def setOption (disk : FileSystem) (s : Split) (r : Request) (name : Text) : Except UsageError Request :=
  let value := (s.value? name).getD []
  if name == "--language" then setLanguage r value
  else if name == "--workers" then setWorkers r value
  else if name == "--cache-dir" then setCacheDirectory disk r value
  else if name == "--resolve" then .ok { r with resolve := true }
  else if name == "--compact" then .ok { r with compact := true }
  else .ok r

/-- A variable of the environment that is set to something. -/
def unlessEmpty (value : Option Text) : Option Text := value.filter fun v => !v.isEmpty

/-- Checks the arguments: options in the order in which they were given, then the paths,
then what the environment sets in place of options. -/
def request (disk : FileSystem) (env : Environment) (s : Split) : Except UsageError Request := do
  let names := (s.options.map (·.1)).eraseDups
  let r ← names.foldlM (setOption disk s) {}
  let r ← setPaths disk r s.arguments
  let r ← match unlessEmpty env.workers with
    | some value => if s.has "--workers" then pure r else setWorkers r value
    | none => pure r
  match unlessEmpty env.cacheDirectory with
  | some value => if s.has "--cache-dir" then pure r else setCacheDirectory disk r value
  | none => pure r

end CommandLine

end FunctionInventory
