import FunctionInventory.Parsing.Pattern

/-!
# The input of a parser

Bytes are read as UTF-8. A byte that belongs to no well-formed character is a unit
of its own. Every unit knows its byte offset and its row.
-/
namespace FunctionInventory

/-- Units with the byte offset and the row of each; the last entry of `offsets` and
`rows` belongs to the end. -/
structure Source where
  units : Array Nat
  offsets : Array Nat
  rows : Array Nat
deriving Inhabited

namespace Source

/-- The well-formed character at the front of the bytes, with its width. -/
def decode (bytes : Array UInt8) (i : Nat) : Nat × Nat :=
  let at' (k : Nat) : Nat := (bytes.getD (i + k) 0).toNat
  let tail (k : Nat) : Bool := 0x80 ≤ at' k && at' k < 0xc0
  let b := at' 0
  if b < 0x80 then (b, 1)
  else if 0xc2 ≤ b && b < 0xe0 && tail 1 then ((b - 0xc0) * 64 + (at' 1 - 0x80), 2)
  else if 0xe0 ≤ b && b < 0xf0 && tail 1 && tail 2 then
    let c := (b - 0xe0) * 4096 + (at' 1 - 0x80) * 64 + (at' 2 - 0x80)
    if c < 0x800 || (0xd800 ≤ c && c < 0xe000) then (malformed, 1) else (c, 3)
  else if 0xf0 ≤ b && b < 0xf5 && tail 1 && tail 2 && tail 3 then
    let c := (b - 0xf0) * 262144 + (at' 1 - 0x80) * 4096 + (at' 2 - 0x80) * 64 + (at' 3 - 0x80)
    if c < 0x10000 || 0x110000 ≤ c then (malformed, 1) else (c, 4)
  else (malformed, 1)

/-- Reads at most `fuel` units from byte `i` on. -/
def read (bytes : Array UInt8) : (fuel i row : Nat) → Source → Source
  | 0, i, row, s => { s with offsets := s.offsets.push i, rows := s.rows.push row }
  | fuel + 1, i, row, s =>
    if i < bytes.size then
      let (c, width) := decode bytes i
      read bytes fuel (i + width) (if c == 10 then row + 1 else row)
        ⟨s.units.push c, s.offsets.push i, s.rows.push row⟩
    else { s with offsets := s.offsets.push i, rows := s.rows.push row }

def ofBytes (bytes : Array UInt8) : Source := read bytes bytes.size 0 0 ⟨#[], #[], #[]⟩

def size (s : Source) : Nat := s.units.size

/-- The unit at a position; zero at the end. -/
@[inline] def peek (s : Source) (i : Nat) : Nat := s.units.getD i 0

def offset (s : Source) (i : Nat) : Nat := s.offsets.getD i 0

def row (s : Source) (i : Nat) : Nat := s.rows.getD i 0

/-- The text of the units from `i` to `j`. -/
def text (s : Source) (i j : Nat) : String :=
  String.ofList ((s.units.extract i j).toList.map Char.ofNat)

end Source

end FunctionInventory
