/-!
# Patterns over input units

An input unit is the code point of a well-formed character, or `malformed` for a
single byte that belongs to none. A `Pattern` is a regular expression over units;
it is matched by taking derivatives, one unit at a time.
-/
namespace FunctionInventory

/-- The unit that stands for a byte outside every well-formed character. -/
def malformed : Nat := 0x110000

/-- A set of units: the listed closed ranges, or everything outside them but the null
character. A malformed byte lies in complements only. -/
structure CharSet where
  ranges : List (Nat × Nat)
  complemented : Bool := false
deriving BEq, Hashable, Repr, Inhabited

namespace CharSet

def contains (s : CharSet) (c : Nat) : Bool :=
  if s.complemented then c != 0 && !s.ranges.any (fun r => r.1 ≤ c && c ≤ r.2)
  else s.ranges.any fun r => r.1 ≤ c && c ≤ r.2

/-- The characters of a text. -/
def of (text : String) : CharSet := ⟨text.toList.map fun c => (c.toNat, c.toNat), false⟩

def range (lo hi : Char) : CharSet := ⟨[(lo.toNat, hi.toNat)], false⟩

def union (s t : CharSet) : CharSet := ⟨s.ranges ++ t.ranges, false⟩

def compl (s : CharSet) : CharSet := { s with complemented := !s.complemented }

instance : Append CharSet := ⟨union⟩

def digit : CharSet := range '0' '9'

def octalDigit : CharSet := range '0' '7'

def hexDigit : CharSet := digit ++ range 'a' 'f' ++ range 'A' 'F'

def asciiLetter : CharSet := range 'a' 'z' ++ range 'A' 'Z'

end CharSet

/-- Regular expressions over units. -/
inductive Pattern where
  | never
  | empty
  | unit (s : CharSet)
  | text (cs : List Nat)
  | seq (a b : Pattern)
  | alt (a b : Pattern)
  | star (a : Pattern)
deriving BEq, Hashable, Repr, Inhabited

namespace Pattern

/-- Whether the pattern matches the empty word. -/
def nullable : Pattern → Bool
  | never | unit _ => false
  | empty | star _ => true
  | text cs => cs.isEmpty
  | seq a b => a.nullable && b.nullable
  | alt a b => a.nullable || b.nullable

/-- Sequencing that drops a dead or an empty side. -/
def andThen : Pattern → Pattern → Pattern
  | never, _ | _, never => never
  | empty, p => p
  | p, empty => p
  | p, q => seq p q

/-- Alternation that drops a dead side and a repeated one. -/
def orElse : Pattern → Pattern → Pattern
  | never, p => p
  | p, never => p
  | p, q => if p == q then p else alt p q

/-- What remains to be matched after the unit `c`. -/
def derive (c : Nat) : Pattern → Pattern
  | never | empty => never
  | unit s => if s.contains c then empty else never
  | text [] => never
  | text (d :: ds) => if c == d then (if ds.isEmpty then empty else text ds) else never
  | seq a b =>
    if a.nullable then orElse (andThen (a.derive c) b) (b.derive c) else andThen (a.derive c) b
  | alt a b => orElse (a.derive c) (b.derive c)
  | star a => andThen (a.derive c) (star a)

def isNever : Pattern → Bool
  | never => true
  | _ => false

def ofString (s : String) : Pattern := text (s.toList.map Char.toNat)

def plus (p : Pattern) : Pattern := seq p (star p)

def opt (p : Pattern) : Pattern := alt p empty

def seqAll : List Pattern → Pattern
  | [] => empty
  | [p] => p
  | p :: ps => seq p (seqAll ps)

def altAll : List Pattern → Pattern
  | [] => never
  | [p] => p
  | p :: ps => alt p (altAll ps)

/-- Between `lo` and `lo + more` copies of `p`. -/
def times (p : Pattern) : (lo more : Nat) → Pattern
  | 0, 0 => empty
  | 0, more + 1 => opt (seq p (times p 0 more))
  | lo + 1, more => seq p (times p lo more)

end Pattern

end FunctionInventory
