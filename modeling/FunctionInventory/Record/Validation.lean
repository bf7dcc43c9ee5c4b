import FunctionInventory.Record.Dump
import FunctionInventory.Text.Integer

/-!
# Checking data

Data is turned into records, as far as these may be nested in each other. All problems of a
value are collected, each with the place where it was found. Keys that name no field are ignored;
a field with two spellings is looked up by the short one first.
-/
namespace FunctionInventory

/-- One step on the way to a part of a value. -/
inductive ValuePart where
  | key (name : Text)
  | index (i : Nat)
deriving DecidableEq, Inhabited

/-- What can be wrong with a value. -/
inductive Problem where
  | missing
  | notModel (model : String)
  | notText
  | undecodableText
  | notInteger
  | unreadableInteger
  | oversizedInteger
  | fractionalNumber
  | infiniteNumber
  | belowOne
  | reversedLines (stop start : Int)
  | notList
  | notSet
  | frozen
  | nested
deriving DecidableEq, Inhabited

namespace Problem

/-- The kind of a problem. -/
def kind : Problem → String
  | missing => "missing"
  | notModel _ => "model_type"
  | notText => "string_type"
  | undecodableText => "string_unicode"
  | notInteger => "int_type"
  | unreadableInteger => "int_parsing"
  | oversizedInteger => "int_parsing_size"
  | fractionalNumber => "int_from_float"
  | infiniteNumber => "finite_number"
  | belowOne => "greater_than_equal"
  | reversedLines .. => "value_error"
  | notList => "list_type"
  | notSet => "frozen_set_type"
  | frozen => "frozen_instance"
  | nested => "recursion_loop"

def message : Problem → String
  | missing => "Field required"
  | notModel model => "Input should be a valid dictionary or instance of " ++ model
  | notText => "Input should be a valid string"
  | undecodableText => "Input should be a valid string, unable to parse raw data as a unicode string"
  | notInteger => "Input should be a valid integer"
  | unreadableInteger =>
    "Input should be a valid integer, unable to parse string as an integer"
  | oversizedInteger => "Unable to parse input string as an integer, exceeded maximum size"
  | fractionalNumber => "Input should be a valid integer, got a number with a fractional part"
  | infiniteNumber => "Input should be a finite number"
  | belowOne => "Input should be greater than or equal to 1"
  | reversedLines stop start =>
    "Value error, line range end " ++ toString stop ++ " precedes start " ++ toString start
  | notList => "Input should be a valid list"
  | notSet => "Input should be a valid frozenset"
  | frozen => "Instance is frozen"
  | nested => "Recursion error - cyclic reference detected"

end Problem

/-- A problem and where it was found. -/
structure Finding where
  place : List ValuePart
  problem : Problem
deriving DecidableEq, Inhabited

/-- The outcome of a check. -/
def Check (α : Type) := Except (List Finding) α

namespace Check

def ok (a : α) : Check α := Except.ok a

def fail (p : Problem) : Check α := Except.error [⟨[], p⟩]

def map (f : α → β) (x : Check α) : Check β := Except.map f x

/-- Checks both sides; the findings of both are kept. -/
def both (f : α → β → γ) (x : Check α) (y : Check β) : Check γ :=
  match x, y with
  | .ok a, .ok b => .ok (f a b)
  | .ok _, .error e => .error e
  | .error e, .ok _ => .error e
  | .error e, .error e' => .error (e ++ e')

/-- Goes on with a checked value. -/
def andThen (x : Check α) (f : α → Check β) : Check β :=
  match x with
  | .ok a => f a
  | .error e => .error e

/-- Places the findings one step further in. -/
def below (s : ValuePart) (x : Check α) : Check α :=
  Except.mapError (List.map fun f => { f with place := s :: f.place }) x

/-- Records do not change: setting a field is refused. -/
def assign (field : Text) : Check α := below (.key field) (fail .frozen)

/-- Checks the items of a list, counted from `i` on. -/
def items (check : Value → Check α) (i : Nat) : List Value → Check (List α)
  | [] => ok []
  | v :: vs => both List.cons (below (.index i) (check v)) (items check (i + 1) vs)

end Check

/-- The value of a field: under its short key, or else under the written-out one. -/
def fieldValue? (v : Value) (short long : Text) : Option Value :=
  (v.get? short).orElse fun _ => v.get? long

/-- A required field. -/
def required (v : Value) (key : Text) (check : Value → Check α) : Check α :=
  .below (.key key) (match v.get? key with
    | some w => check w
    | none => .fail .missing)

/-- A field with a default. -/
def optional (v : Value) (key : Text) (default : α) (check : Value → Check α) : Check α :=
  match v.get? key with
  | some w => .below (.key key) (check w)
  | none => .ok default

namespace Check

/-- A text; bytes count as their text. -/
def text : Value → Check Text
  | .text t => ok t
  | .bytes b => match Text.decodeStrict? b with
    | some t => ok t
    | none => fail .undecodableText
  | _ => fail .notText

/-- Texts of integers have at most this many characters. -/
def maxIntegerLength : Nat := 4300

def readInteger (t : Text) : Check Int :=
  if Text.hasSurrogate t then fail .undecodableText
  else match Text.toPlainInt? t with
    | some i => if t.length ≤ maxIntegerLength then ok i else fail .oversizedInteger
    | none => fail .unreadableInteger

/-- An integer; truth values, whole numbers and texts of integers count as one. -/
def integer : Value → Check Int
  | .int i => ok i
  | .bool b => ok (if b then 1 else 0)
  | .real x =>
    if !x.isFinite then fail .infiniteNumber
    else match x.toInt? with
      | some i => if -0x8000000000000000 < i ∧ i < 0x8000000000000000 then ok i else fail .oversizedInteger
      | none => fail .fractionalNumber
  | .text t => readInteger t
  | .bytes b => match Text.decodeStrict? b with
    | some t => readInteger t
    | none => fail .unreadableInteger
  | _ => fail .notInteger

/-- A line number. -/
def lineNumber (v : Value) : Check { n : Nat // 1 ≤ n } :=
  (integer v).andThen fun i =>
    if h : 1 ≤ i then ok ⟨i.toNat, by omega⟩ else fail .belowOne

/-- A list whose items are checked. -/
def list (check : Value → Check α) : Value → Check (List α)
  | .list vs => items check 0 vs
  | _ => fail .notList

/-- A set of names, given as a list. -/
def nameSet : Value → Check NameSet
  | .list vs => (items text 0 vs).map NameSet.ofList
  | _ => fail .notSet

/-- A map, as every record has to be. -/
def members (model : String) (v : Value) (check : Value → Check α) : Check α :=
  match v with
  | .map ms => check (.map ms)
  | _ => fail (.notModel model)

end Check

def Parameter.check (v : Value) : Check Parameter :=
  .members "Parameter" v fun v =>
    .both Parameter.mk (required v "name" Check.text) (optional v "type" anyType Check.text)

/-- The range between two lines, if they are in order. -/
def LineRange.make (start stop : { n : Nat // 1 ≤ n }) : Check LineRange :=
  if h : start.val ≤ stop.val then .ok ⟨start.val, stop.val, start.property, h⟩
  else .fail (.reversedLines stop.val start.val)

def LineRange.check (v : Value) : Check LineRange :=
  .members "LineRange" v fun v =>
    (Check.both Prod.mk (required v "start" Check.lineNumber)
      (required v "end" Check.lineNumber)).andThen fun (start, stop) => LineRange.make start stop

def SourceUnit.check (v : Value) : Check SourceUnit :=
  .members "SourceUnit" v fun v =>
    .both SourceUnit.mk (required v "path" Check.text) (required v "content" Check.text)

namespace RecordField

/-- A required field that has two spellings. -/
def required (f : RecordField) (v : Value) (check : Value → Check α) : Check α :=
  let key : Text := f.key .camelCase
  .below (.key key) (match fieldValue? v key (f.key .snakeCase) with
    | some w => check w
    | none => .fail .missing)

/-- A field with a default that has two spellings. -/
def optional (f : RecordField) (v : Value) (default : α) (check : Value → Check α) : Check α :=
  let key : Text := f.key .camelCase
  match fieldValue? v key (f.key .snakeCase) with
  | some w => .below (.key key) (check w)
  | none => .ok default

end RecordField

namespace FunctionRecord

/-- The fields besides the nested records. -/
structure Outline where
  name : Text
  parameters : List Parameter
  returnType : Text
  lines : LineRange
  sourceText : Text

def Outline.check (v : Value) : Check Outline :=
  let names := Check.both Prod.mk (FunctionInventory.required v "name" Check.text)
    (FunctionInventory.optional v "parameters" [] (Check.list Parameter.check))
  let types := Check.both Prod.mk (RecordField.returnType.optional v voidType Check.text)
    (RecordField.lineRange.required v LineRange.check)
  Check.both (fun (a, b) ((c, d), e) => ⟨a, b, c, d, e⟩) names
    (Check.both Prod.mk types (RecordField.sourceText.required v Check.text))

/-- The record of an outline, its nested records and its calls. -/
def Outline.complete (o : Outline) (inner : List FunctionRecord) (calls : NameSet) : FunctionRecord :=
  ⟨o.name, o.parameters, o.returnType, o.lines, o.sourceText, inner, calls⟩

mutual

/-- Checks a record with up to so many levels of records nested in each other. What would be one
level more is refused, whatever it is. -/
def check : (levels : Nat) → Value → Check FunctionRecord
  | 0, _ => .fail .nested
  | levels + 1, .map ms =>
    let v := Value.map ms
    let key : Text := RecordField.innerFunctions.key .camelCase
    let inner := (checkInner levels key ms).orElse fun _ =>
      checkInner levels (RecordField.innerFunctions.key .snakeCase) ms
    Check.both (fun o (inner, calls) => o.complete inner calls) (Outline.check v)
      (Check.both Prod.mk (match inner with
          | some c => c.below (.key key)
          | none => .ok [])
        (RecordField.calledFunctions.optional v ∅ Check.nameSet))
  | _ + 1, _ => .fail (.notModel "FunctionRecord")

/-- Checks the list of records under a key, if the key is there. -/
def checkInner (levels : Nat) (key : Text) :
    List (Value × Value) → Option (Check (List FunctionRecord))
  | [] => none
  | (k, v) :: ms =>
    if Value.sameKey k (.text key) then some (checkList levels v) else checkInner levels key ms

def checkList (levels : Nat) : Value → Check (List FunctionRecord)
  | .list vs => checkItems levels 0 vs
  | _ => .fail .notList

def checkItems (levels : Nat) (i : Nat) : List Value → Check (List FunctionRecord)
  | [] => .ok []
  | v :: vs =>
    Check.both List.cons ((check levels v).below (.index i)) (checkItems levels (i + 1) vs)

end

end FunctionRecord

def FileFunctions.check (levels : Nat) (v : Value) : Check FileFunctions :=
  .members "FileFunctions" v fun v =>
    .both (fun path (functions, errors) => ⟨path, functions, errors⟩) (required v "path" Check.text)
      (.both Prod.mk (optional v "functions" [] (FunctionRecord.checkList levels))
        (optional v "errors" [] (Check.list Check.text)))

end FunctionInventory
