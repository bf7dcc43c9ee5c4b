/-!
# Sets of tokens

Tokens are numbered below 256, so a set of them is four machine words.
-/
namespace FunctionInventory

/-- A set of token numbers below 256. -/
structure TokenSet where
  w0 : UInt64
  w1 : UInt64
  w2 : UInt64
  w3 : UInt64
deriving BEq, Inhabited

namespace TokenSet

def empty : TokenSet := ⟨0, 0, 0, 0⟩

instance : EmptyCollection TokenSet := ⟨empty⟩

instance : Hashable TokenSet where
  hash s := mixHash (mixHash s.w0 s.w1) (mixHash s.w2 s.w3)

@[inline] def union (s t : TokenSet) : TokenSet :=
  ⟨s.w0 ||| t.w0, s.w1 ||| t.w1, s.w2 ||| t.w2, s.w3 ||| t.w3⟩

@[inline] def isEmpty (s : TokenSet) : Bool :=
  (s.w0 ||| s.w1 ||| s.w2 ||| s.w3) == 0

/-- Whether every member of `s` is one of `t`. -/
@[inline] def subset (s t : TokenSet) : Bool :=
  ((s.w0 &&& ~~~t.w0) ||| (s.w1 &&& ~~~t.w1) ||| (s.w2 &&& ~~~t.w2) ||| (s.w3 &&& ~~~t.w3)) == 0

def singleton (i : Nat) : TokenSet :=
  let bit : UInt64 := 1 <<< (UInt64.ofNat (i % 64))
  if i < 64 then ⟨bit, 0, 0, 0⟩
  else if i < 128 then ⟨0, bit, 0, 0⟩
  else if i < 192 then ⟨0, 0, bit, 0⟩
  else ⟨0, 0, 0, bit⟩

def contains (s : TokenSet) (i : Nat) : Bool :=
  let w := if i < 64 then s.w0 else if i < 128 then s.w1 else if i < 192 then s.w2 else s.w3
  (w >>> (UInt64.ofNat (i % 64))) &&& 1 == 1

def insert (s : TokenSet) (i : Nat) : TokenSet := s.union (singleton i)

def ofList (xs : List Nat) : TokenSet := xs.foldl insert empty

/-- The members below `n`, in increasing order. -/
def toList (s : TokenSet) (n : Nat) : List Nat := (List.range n).filter s.contains

end TokenSet

end FunctionInventory
