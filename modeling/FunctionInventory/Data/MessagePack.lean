import FunctionInventory.Data.Value

/-!
# MessagePack

Values are written in their shortest form, as far as they may be nested in each other. Reading
takes exactly one value; keys of maps are texts or bytes, and a repeated key keeps its place and
takes the later value.
-/
namespace FunctionInventory

namespace MessagePack

/-- A number as so many bytes, the highest first. -/
def bigEndian : (width n : Nat) → List UInt8
  | 0, _ => []
  | width + 1, n => UInt8.ofNat (n >>> (8 * width)) :: bigEndian width n

/-- The number that bytes denote, the highest first. -/
def natOf (bytes : List UInt8) : Nat := bytes.foldl (fun n b => n * 256 + b.toNat) 0

/-- The number that bytes denote in two's complement. -/
def intOf (bytes : List UInt8) : Int :=
  let n := natOf bytes
  let size := 1 <<< (8 * bytes.length)
  if 2 * n < size then n else (n : Int) - size

/-- Why a value cannot be written. -/
inductive Unwritable where
  | integerRange
  | surrogate
  | size
  | nesting
deriving DecidableEq, Repr, Inhabited

def writeInt (i : Int) : Except Unwritable (List UInt8) :=
  if 0 ≤ i then
    let n := i.toNat
    if n < 0x80 then .ok [UInt8.ofNat n]
    else if n < 0x100 then .ok (0xcc :: bigEndian 1 n)
    else if n < 0x10000 then .ok (0xcd :: bigEndian 2 n)
    else if n < 0x100000000 then .ok (0xce :: bigEndian 4 n)
    else if n < 0x10000000000000000 then .ok (0xcf :: bigEndian 8 n)
    else .error .integerRange
  else if -32 ≤ i then .ok [UInt8.ofNat (i + 256).toNat]
  else if -0x80 ≤ i then .ok (0xd0 :: bigEndian 1 (i + 0x100).toNat)
  else if -0x8000 ≤ i then .ok (0xd1 :: bigEndian 2 (i + 0x10000).toNat)
  else if -0x80000000 ≤ i then .ok (0xd2 :: bigEndian 4 (i + 0x100000000).toNat)
  else if -0x8000000000000000 ≤ i then .ok (0xd3 :: bigEndian 8 (i + 0x10000000000000000).toNat)
  else .error .integerRange

/-- The head of a text of `n` bytes. -/
def textHead (n : Nat) : Except Unwritable (List UInt8) :=
  if n < 32 then .ok [UInt8.ofNat (0xa0 + n)]
  else if n < 0x100 then .ok (0xd9 :: bigEndian 1 n)
  else if n < 0x10000 then .ok (0xda :: bigEndian 2 n)
  else if n < 0x100000000 then .ok (0xdb :: bigEndian 4 n)
  else .error .size

/-- The head of `n` raw bytes. -/
def bytesHead (n : Nat) : Except Unwritable (List UInt8) :=
  if n < 0x100 then .ok (0xc4 :: bigEndian 1 n)
  else if n < 0x10000 then .ok (0xc5 :: bigEndian 2 n)
  else if n < 0x100000000 then .ok (0xc6 :: bigEndian 4 n)
  else .error .size

/-- The head of a container with `n` entries, given its three marks. -/
def containerHead (short medium long : UInt8) (n : Nat) : Except Unwritable (List UInt8) :=
  if n < 16 then .ok [short + UInt8.ofNat n]
  else if n < 0x10000 then .ok (medium :: bigEndian 2 n)
  else if n < 0x100000000 then .ok (long :: bigEndian 4 n)
  else .error .size

def listHead : Nat → Except Unwritable (List UInt8) := containerHead 0x90 0xdc 0xdd

def mapHead : Nat → Except Unwritable (List UInt8) := containerHead 0x80 0xde 0xdf

/-- The head of an extension with `n` bytes. -/
def extensionHead (n : Nat) : Except Unwritable (List UInt8) :=
  if n == 1 then .ok [0xd4]
  else if n == 2 then .ok [0xd5]
  else if n == 4 then .ok [0xd6]
  else if n == 8 then .ok [0xd7]
  else if n == 16 then .ok [0xd8]
  else if n < 0x100 then .ok (0xc7 :: bigEndian 1 n)
  else if n < 0x10000 then .ok (0xc8 :: bigEndian 2 n)
  else if n < 0x100000000 then .ok (0xc9 :: bigEndian 4 n)
  else .error .size

/-- A moment in the shortest of its three forms. -/
def momentBytes (seconds : Int) (nanoseconds : Nat) : List UInt8 :=
  if 0 ≤ seconds ∧ seconds < 0x400000000 then
    let n := nanoseconds * 0x400000000 + seconds.toNat
    if n < 0x100000000 then bigEndian 4 n else bigEndian 8 n
  else bigEndian 4 nanoseconds ++ bigEndian 8 ((seconds + 0x10000000000000000) % 0x10000000000000000).toNat

mutual

/-- Writes a value with up to so many levels of values nested in each other. -/
def write : (levels : Nat) → Value → Except Unwritable (List UInt8)
  | 0, _ => .error .nesting
  | _ + 1, .null => .ok [0xc0]
  | _ + 1, .bool b => .ok [if b then 0xc3 else 0xc2]
  | _ + 1, .int i => writeInt i
  | _ + 1, .real x => .ok (0xcb :: bigEndian 8 x.bits.toNat)
  | _ + 1, .text t => do
    let some bytes := Text.encodeStrict? t | .error .surrogate
    return (← textHead bytes.length) ++ bytes
  | _ + 1, .bytes b => return (← bytesHead b.length) ++ b
  | levels + 1, .list vs => do
    let head ← listHead vs.length
    return head ++ (← writeItems levels vs)
  | levels + 1, .map ms => do
    let head ← mapHead ms.length
    return head ++ (← writeMembers levels ms)
  | _ + 1, .extension code data =>
    return (← extensionHead data.length) ++ UInt8.ofNat (code % 256).toNat :: data
  | _ + 1, .moment seconds nanoseconds => do
    let data := momentBytes seconds nanoseconds
    return (← extensionHead data.length) ++ 0xff :: data

def writeItems (levels : Nat) : List Value → Except Unwritable (List UInt8)
  | [] => .ok []
  | v :: vs => do
    let first ← write levels v
    return first ++ (← writeItems levels vs)

def writeMembers (levels : Nat) : List (Value × Value) → Except Unwritable (List UInt8)
  | [] => .ok []
  | (k, v) :: ms => do
    let key ← write levels k
    let value ← write levels v
    return key ++ value ++ (← writeMembers levels ms)

end

/-- A reader takes something off the front of the bytes. -/
abbrev Reader (α : Type) := List UInt8 → Option (α × List UInt8)

/-- So many bytes. -/
def take (n : Nat) : Reader (List UInt8) := fun bytes =>
  let front := bytes.take n
  if front.length == n then some (front, bytes.drop n) else none

/-- A number of so many bytes. -/
def takeNat (width : Nat) : Reader Nat := fun bytes =>
  (take width bytes).map fun (b, rest) => (natOf b, rest)

def takeInt (width : Nat) : Reader Value := fun bytes =>
  (take width bytes).map fun (b, rest) => (.int (intOf b), rest)

/-- A text of `n` bytes. -/
def takeText (n : Nat) : Reader Value := fun bytes => do
  let (b, rest) ← take n bytes
  return (.text (← Text.decodeStrict? b), rest)

def takeBytes (n : Nat) : Reader Value := fun bytes =>
  (take n bytes).map fun (b, rest) => (.bytes b, rest)

/-- What an extension stands for: that of code -1 is a moment, and other negative codes are
refused. -/
def extensionValue? (code : Int) (data : List UInt8) : Option Value :=
  if 0 ≤ code then some (.extension code data)
  else if code ≠ -1 then none
  else
    let moment (seconds : Int) (nanoseconds : Nat) : Option Value :=
      if nanoseconds < 1000000000 then some (.moment seconds nanoseconds) else none
    match data.length with
    | 4 => moment (natOf data) 0
    | 8 => moment (natOf data % 0x400000000 : Nat) (natOf data / 0x400000000)
    | 12 => moment (intOf (data.drop 4)) (natOf (data.take 4))
    | _ => none

/-- An extension with `n` bytes of data. -/
def takeExtension (n : Nat) : Reader Value := fun bytes => do
  let (code, rest) ← take 1 bytes
  let (data, rest) ← take n rest
  return (← extensionValue? (intOf code) data, rest)

/-- Whether a value may be a key of a map in a file. -/
def isFileKey : Value → Bool
  | .text _ => true
  | .bytes _ => true
  | _ => false

/-- No bytes, for a value that is known. -/
def known (v : Value) : Reader Value := fun bytes => some (v, bytes)

/-- A number of so many bytes, and what it asks for. -/
def sized (width : Nat) (next : Nat → Reader Value) : Reader Value := fun bytes => do
  let (n, rest) ← takeNat width bytes
  next n rest

/-- What a first byte asks for, given how items and members are read. -/
def behind (items members : Nat → Reader Value) (b : UInt8) : Reader Value :=
  let m := b.toNat
  if m < 0x80 then known (.int m)
  else if m < 0x90 then members (m - 0x80)
  else if m < 0xa0 then items (m - 0x90)
  else if m < 0xc0 then takeText (m - 0xa0)
  else if 0xe0 ≤ m then known (.int (m - 256))
  else match m with
    | 0xc0 => known .null
    | 0xc2 => known (.bool false)
    | 0xc3 => known (.bool true)
    | 0xc4 => sized 1 takeBytes
    | 0xc5 => sized 2 takeBytes
    | 0xc6 => sized 4 takeBytes
    | 0xc7 => sized 1 takeExtension
    | 0xc8 => sized 2 takeExtension
    | 0xc9 => sized 4 takeExtension
    | 0xca => sized 4 fun n => known (.real (.ofBinary32 (UInt32.ofNat n)))
    | 0xcb => sized 8 fun n => known (.real ⟨UInt64.ofNat n⟩)
    | 0xcc => sized 1 fun n => known (.int n)
    | 0xcd => sized 2 fun n => known (.int n)
    | 0xce => sized 4 fun n => known (.int n)
    | 0xcf => sized 8 fun n => known (.int n)
    | 0xd0 => takeInt 1
    | 0xd1 => takeInt 2
    | 0xd2 => takeInt 4
    | 0xd3 => takeInt 8
    | 0xd4 => takeExtension 1
    | 0xd5 => takeExtension 2
    | 0xd6 => takeExtension 4
    | 0xd7 => takeExtension 8
    | 0xd8 => takeExtension 16
    | 0xd9 => sized 1 takeText
    | 0xda => sized 2 takeText
    | 0xdb => sized 4 takeText
    | 0xdc => sized 2 items
    | 0xdd => sized 4 items
    | 0xde => sized 2 members
    | 0xdf => sized 4 members
    | _ => fun _ => none

mutual

/-- Reads a value. A byte that opens a container costs two units of fuel. -/
def value : (fuel : Nat) → Reader Value
  | 0, _ => none
  | _ + 1, [] => none
  | fuel + 1, b :: rest =>
    behind (fun n => items fuel n []) (fun n => members fuel n []) b rest

/-- Reads `n` items of a list; those before are in `acc`, the last one first. -/
def items : (fuel n : Nat) → List Value → Reader Value
  | _, 0, acc, rest => some (.list acc.reverse, rest)
  | 0, _ + 1, _, _ => none
  | fuel + 1, n + 1, acc, rest =>
    match value fuel rest with
    | some (v, rest) => items fuel n (v :: acc) rest
    | none => none

/-- Reads `n` members of a map; those before are in `acc`. -/
def members : (fuel n : Nat) → List (Value × Value) → Reader Value
  | _, 0, acc, rest => some (.map acc, rest)
  | 0, _ + 1, _, _ => none
  | fuel + 1, n + 1, acc, rest =>
    match value fuel rest with
    | some (k, rest) =>
      if isFileKey k then
        match value fuel rest with
        | some (v, rest) => members fuel n (Value.put k v acc) rest
        | none => none
      else none
    | none => none

end

/-- Reads bytes that are exactly one value. -/
def read? (bytes : List UInt8) : Option Value :=
  match value (2 * bytes.length + 2) bytes with
  | some (v, []) => some v
  | _ => none

end MessagePack

end FunctionInventory
