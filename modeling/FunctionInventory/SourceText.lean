import FunctionInventory.Text

/-!
# Source text by byte offsets

Syntax trees speak of byte offsets. `SourceText` cuts texts at such offsets and finds
the line of an offset in a table of line starts.
-/
namespace FunctionInventory

/-- A slice that cuts a character in two, or a name that holds a lone surrogate. -/
inductive TextError where
  | malformed
deriving Repr, DecidableEq, Inhabited

/-- Bytes with the offsets at which their lines start. -/
structure SourceText where
  bytes : Array UInt8
  lineStarts : Array Nat
deriving Inhabited

namespace SourceText

/-- The first line feed at the offset `i` or behind it. -/
def nextFeed? (bytes : Array UInt8) (i : Nat) : Option Nat :=
  if h : i < bytes.size then
    if bytes[i] == 10 then some i else nextFeed? bytes (i + 1)
  else none
termination_by bytes.size - i

theorem bounds_of_nextFeed? {bytes : Array UInt8} {i pos : Nat}
    (h : nextFeed? bytes i = some pos) : i ≤ pos ∧ pos < bytes.size := by
  fun_induction nextFeed? bytes i with
  | case1 i hi hfeed =>
    obtain rfl : i = pos := by simpa using h
    omega
  | case2 i hi hfeed ih =>
    have := ih h
    omega
  | case3 i hi => simp at h

/-- A table of line starts in the making: the starts so far, and the line feed behind which the
next line starts. -/
structure LineSearch where
  starts : Array Nat
  feed : Option Nat

namespace LineSearch

def initial (bytes : Array UInt8) : LineSearch := ⟨#[0], nextFeed? bytes 0⟩

/-- Notes the line behind the line feed and searches on from its start. -/
def step? (bytes : Array UInt8) (s : LineSearch) : Option LineSearch :=
  s.feed.map fun pos => ⟨s.starts.push (pos + 1), nextFeed? bytes (pos + 1)⟩

/-- A bound for the steps that are left: the next line feed stands behind this one. -/
def remaining (bytes : Array UInt8) (s : LineSearch) : Nat :=
  match s.feed with
  | some pos => bytes.size - pos + 1
  | none => 0

theorem remaining_lt_of_step? {bytes : Array UInt8} {s s' : LineSearch}
    (h : s.step? bytes = some s') : s'.remaining bytes < s.remaining bytes := by
  obtain ⟨pos, hpos, rfl⟩ := Option.map_eq_some_iff.1 h
  simp only [remaining, hpos]
  cases hnext : nextFeed? bytes (pos + 1) with
  | none => simp
  | some next =>
    have := bounds_of_nextFeed? hnext
    simp only
    omega

/-- The table once no line feed is left. -/
def run (bytes : Array UInt8) (s : LineSearch) : Array Nat :=
  match _h : s.step? bytes with
  | some s' => s'.run bytes
  | none => s.starts
termination_by s.remaining bytes
decreasing_by exact remaining_lt_of_step? (by assumption)

end LineSearch

def ofBytes (bytes : Array UInt8) : SourceText := ⟨bytes, (LineSearch.initial bytes).run bytes⟩

def ofText (t : Text) : SourceText := ofBytes t.encode.toArray

def size (s : SourceText) : Nat := s.bytes.size

/-- The text between two offsets; offsets behind the end stand for the end. -/
def slice (s : SourceText) (start stop : Nat) : Except TextError Text :=
  match Text.decode? (s.bytes.extract start stop).toList with
  | some t => .ok t
  | none => .error .malformed

/-- As `slice`, without surrogates. -/
def sliceStrict (s : SourceText) (start stop : Nat) : Except TextError Text :=
  match Text.decodeStrict? (s.bytes.extract start stop).toList with
  | some t => .ok t
  | none => .error .malformed

/-- An offset that may count from the end. -/
def position (s : SourceText) (offset : Int) : Nat :=
  if offset < 0 then (offset + s.size).toNat else offset.toNat

/-- The number of entries of the sorted table that are at most `x`, among those between
`lo` and `hi`, plus `lo`. -/
def upperBound (table : Array Nat) (x : Int) (lo hi : Nat) : Nat :=
  if lo < hi then
    let mid := (lo + hi) / 2
    if x < (table.getD mid 0 : Nat) then upperBound table x lo mid
    else upperBound table x (mid + 1) hi
  else lo
termination_by hi - lo

/-- The line of an offset: how many lines start at it or before. -/
def lineOf (s : SourceText) (offset : Int) : Nat := upperBound s.lineStarts offset 0 s.lineStarts.size

end SourceText

end FunctionInventory
