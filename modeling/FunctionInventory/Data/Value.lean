import FunctionInventory.Data.Binary64
import FunctionInventory.Text

/-!
# Data without a schema

What files and requests hold before it is checked: scalars, lists, maps whose members
are in order, and the byte strings and extensions of binary formats.
-/
namespace FunctionInventory

inductive Value where
  | null
  | bool (b : Bool)
  | int (i : Int)
  | real (x : Binary64)
  | text (t : Text)
  | bytes (b : List UInt8)
  | list (items : List Value)
  | map (members : List (Value × Value))
  | extension (code : Int) (data : List UInt8)
  | moment (seconds : Int) (nanoseconds : Nat)
deriving Inhabited

namespace Value

instance : Coe String Value := ⟨fun s => .text s⟩

instance : Coe Text Value := ⟨.text⟩

instance : Coe Nat Value := ⟨fun n => .int n⟩

instance : Coe Bool Value := ⟨.bool⟩

/-- A map with texts as keys. -/
def object (members : List (String × Value)) : Value :=
  .map (members.map fun (k, v) => (.text k, v))

/-- The exact value of a number as a fraction over two to the power of 1074; truth
values count as zero and one. -/
def scaled? : Value → Option Int
  | bool b => some (if b then Binary64.pow2 1074 else 0)
  | int i => some (i * Binary64.pow2 1074)
  | real x =>
    if x.isFinite then
      let (m, e) := x.significand
      some (if x.isNegative then -(m * Binary64.pow2 e : Nat) else (m * Binary64.pow2 e : Nat))
    else none
  | _ => none

/-- Whether two values are the same as keys: numbers are compared by value. -/
def sameKey (a b : Value) : Bool :=
  match a, b with
  | null, null => true
  | text t, text u => t == u
  | bytes x, bytes y => x == y
  | extension c x, extension d y => c == d && x == y
  | moment s n, moment t m => s == t && n == m
  | real x, real y =>
    if x.isFinite then a.scaled? == b.scaled? else x == y && !x.isNaN
  | a, b => match a.scaled?, b.scaled? with
    | some x, some y => x == y
    | _, _ => false

/-- Whether a value may be a key; containers may not. -/
def isKey : Value → Bool
  | list _ => false
  | map _ => false
  | _ => true

/-- Sets a key of a map: a known key keeps its place, a new one comes last. -/
def put (key value : Value) : List (Value × Value) → List (Value × Value)
  | [] => [(key, value)]
  | (k, v) :: rest => if sameKey k key then (k, value) :: rest else (k, v) :: put key value rest

/-- The value of a key. -/
def find? (key : Value) (members : List (Value × Value)) : Option Value :=
  (members.find? fun m => sameKey m.1 key).map (·.2)

/-- The value of a text key of a map. -/
def get? (v : Value) (key : Text) : Option Value :=
  match v with
  | map members => find? (.text key) members
  | _ => none

/-- What one meets in going through a value: the items of a list, the characters of a
text, the numbers of bytes, the keys of a map. -/
def elements? : Value → Option (List Value)
  | list items => some items
  | text t => some (t.map fun c => .text [c])
  | bytes b => some (b.map fun x => .int x.toNat)
  | map members => some (members.map (·.1))
  | extension code data => some [.int code, .bytes data]
  | _ => none

end Value

end FunctionInventory
