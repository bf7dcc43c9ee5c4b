import FunctionInventory.Data.Value
import FunctionInventory.Limits
import FunctionInventory.Record

/-!
# Records as data

Every record has a form as plain data, which functions are turned into as far as they may be
nested in each other. The fields of a function record have a short and a written-out spelling of
their keys.
-/
namespace FunctionInventory

/-- How the keys of a function record are spelled. -/
inductive KeyStyle where
  | camelCase
  | snakeCase
deriving DecidableEq, Inhabited

/-- The fields of a function record whose keys have two spellings. -/
inductive RecordField where
  | returnType
  | lineRange
  | sourceText
  | innerFunctions
  | calledFunctions

namespace RecordField

def key : KeyStyle → RecordField → String
  | .camelCase, returnType => "returnType"
  | .camelCase, lineRange => "lineRange"
  | .camelCase, sourceText => "sourceText"
  | .camelCase, innerFunctions => "innerFunctions"
  | .camelCase, calledFunctions => "calledFunctions"
  | .snakeCase, returnType => "return_type"
  | .snakeCase, lineRange => "line_range"
  | .snakeCase, sourceText => "source_text"
  | .snakeCase, innerFunctions => "inner_functions"
  | .snakeCase, calledFunctions => "called_functions"

end RecordField

def Parameter.dump (p : Parameter) : Value := .object [("name", p.name), ("type", p.type)]

def LineRange.dump (r : LineRange) : Value := .object [("start", r.start), ("end", r.stop)]

def SourceUnit.dump (u : SourceUnit) : Value := .object [("path", u.path), ("content", u.content)]

namespace FunctionRecord

mutual

/-- The form of a record as data, which it has at any depth. -/
def toValue (style : KeyStyle) : FunctionRecord → Value
  | ⟨name, parameters, returnType, lines, sourceText, inner, calls⟩ => .object [
      ("name", name),
      ("parameters", .list (parameters.map Parameter.dump)),
      (RecordField.returnType.key style, returnType),
      (RecordField.lineRange.key style, lines.dump),
      (RecordField.sourceText.key style, sourceText),
      (RecordField.innerFunctions.key style, .list (toValues style inner)),
      (RecordField.calledFunctions.key style, .list (calls.names.map .text))]

def toValues (style : KeyStyle) : List FunctionRecord → List Value
  | [] => []
  | r :: rs => toValue style r :: toValues style rs

end

/-- Turns a record into data, unless more than `limit` records are nested in each other. -/
def dump (limit : Nat) (style : KeyStyle) (r : FunctionRecord) : Except NestingError Value :=
  if r.depth ≤ limit then .ok (r.toValue style) else .error .data

def dumpAll (limit : Nat) (style : KeyStyle) (rs : List FunctionRecord) :
    Except NestingError (List Value) := rs.mapM (dump limit style)

end FunctionRecord

/-- Turns the functions of a file into data, as far as they may be nested in each other. -/
def FileFunctions.dump (limit : Nat) (style : KeyStyle) (f : FileFunctions) :
    Except NestingError Value :=
  (FunctionRecord.dumpAll limit style f.functions).map fun functions => .object [
    ("path", f.path),
    ("functions", .list functions),
    ("errors", .list (f.errors.map .text))]

end FunctionInventory
