import FunctionInventory.Text

/-!
# Limits

Functions may be nested in each other without bound, but not every step goes into them at
every depth. What a step does up to its limit is the same whatever the limit is.
-/
namespace FunctionInventory

/-- How deep steps go. Nested records are counted from the outermost one on, and the values
of a file from those on that are in the outermost one. -/
structure Limits where
  /-- Records are turned into data, and found in data, up to this depth. -/
  data : Nat := 255
  /-- Calls are resolved up to this depth. -/
  resolving : Nat := 331
  /-- Values are written to a file up to this depth. -/
  packing : Nat := 511
deriving DecidableEq, Inhabited

/-- A step that does not go as deep as records are nested. -/
inductive NestingError where
  | data
  | resolving
deriving DecidableEq, Inhabited

def NestingError.message : NestingError → Text
  | data => "Circular reference detected (depth exceeded)"
  | resolving => "maximum recursion depth exceeded"

end FunctionInventory
