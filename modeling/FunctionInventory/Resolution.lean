import FunctionInventory.Limits
import FunctionInventory.Record

/-!
# Resolving calls

The index lists the records of every declared name. Resolving keeps the calls to known names
only, at every depth to which it goes.
-/
namespace FunctionInventory

/-- What an index is made of: analyzed files, or plain forests. -/
inductive Indexable where
  | file (f : FileFunctions)
  | forest (rs : List FunctionRecord)

def Indexable.functions : Indexable → List FunctionRecord
  | file f => f.functions
  | forest rs => rs

/-- The records of each name; names are in the order in which they were first met. -/
abbrev FunctionIndex := List (Text × List FunctionRecord)

namespace FunctionIndex

/-- Adds a record under its name. -/
def add (r : FunctionRecord) : FunctionIndex → FunctionIndex
  | [] => [(r.name, [r])]
  | (name, rs) :: rest =>
    if name = r.name then (name, rs ++ [r]) :: rest else (name, rs) :: add r rest

/-- Adds a record unless it is anonymous. -/
def addDeclared (index : FunctionIndex) (r : FunctionRecord) : FunctionIndex :=
  if r.name = anonymous then index else add r index

/-- The index of all records of some forests, nested ones included. -/
def ofForests (forests : List (List FunctionRecord)) : FunctionIndex :=
  (forests.flatMap FunctionRecord.walkAll).foldl addDeclared []

/-- The index of files and forests, in any mixture. -/
def ofAll (inputs : List Indexable) : FunctionIndex := ofForests (inputs.map (·.functions))

/-- Whether a name is declared. -/
def declares (index : FunctionIndex) (name : Text) : Bool := index.any fun e => e.1 = name

end FunctionIndex

namespace FunctionRecord

mutual

/-- The record with the calls to known names only, and so the records nested in it, at any
depth. -/
def filterCalls (known : Text → Bool) : FunctionRecord → FunctionRecord
  | ⟨name, parameters, returnType, lines, sourceText, inner, calls⟩ =>
    ⟨name, parameters, returnType, lines, sourceText, filterAll known inner, calls.filter known⟩

def filterAll (known : Text → Bool) : List FunctionRecord → List FunctionRecord
  | [] => []
  | r :: rs => filterCalls known r :: filterAll known rs

end

/-- Keeps the calls to known names, unless more than `limit` records are nested in each other. -/
def resolve (limit : Nat) (known : Text → Bool) (r : FunctionRecord) :
    Except NestingError FunctionRecord :=
  if r.depth ≤ limit then .ok (r.filterCalls known) else .error .resolving

def resolveAll (limit : Nat) (known : Text → Bool) (rs : List FunctionRecord) :
    Except NestingError (List FunctionRecord) := rs.mapM (resolve limit known)

end FunctionRecord

/-- Resolves every file against the functions that all of them declare. -/
def resolveFiles (limit : Nat) (files : List FileFunctions) :
    Except NestingError (List FileFunctions) :=
  let index := FunctionIndex.ofForests (files.map (·.functions))
  files.mapM fun f =>
    (FunctionRecord.resolveAll limit index.declares f.functions).map fun functions =>
      { f with functions }

end FunctionInventory
