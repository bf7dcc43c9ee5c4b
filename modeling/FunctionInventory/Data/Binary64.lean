/-!
# Binary floating point numbers

A number of 64 bits: a sign, an exponent and a fraction. Only what reading and checking
numbers needs is here: the exact value, and the nearest number of a decimal.
-/
namespace FunctionInventory

structure Binary64 where
  bits : UInt64
deriving DecidableEq, Repr, Inhabited

namespace Binary64

/-- Two to the power of `e`. -/
def pow2 (e : Nat) : Nat := 1 <<< e

def isNegative (x : Binary64) : Bool := x.bits.toNat / pow2 63 == 1

def exponentField (x : Binary64) : Nat := x.bits.toNat / pow2 52 % pow2 11

def fractionField (x : Binary64) : Nat := x.bits.toNat % pow2 52

def isFinite (x : Binary64) : Bool := x.exponentField != 2047

def isNaN (x : Binary64) : Bool := x.exponentField == 2047 && x.fractionField != 0

/-- The integer that is multiplied by a power of two, and the exponent of that power
plus 1074. -/
def significand (x : Binary64) : Nat × Nat :=
  if x.exponentField == 0 then (x.fractionField, 0)
  else (pow2 52 + x.fractionField, x.exponentField - 1)

/-- The value of a finite number without a fractional part. -/
def toInt? (x : Binary64) : Option Int :=
  if !x.isFinite then none
  else
    let (m, e) := x.significand
    let scaled := m * pow2 e
    if scaled % pow2 1074 == 0 then
      let n : Int := (scaled / pow2 1074 : Nat)
      some (if x.isNegative then -n else n)
    else none

def ofBits (negative : Bool) (magnitude : Nat) : Binary64 :=
  ⟨UInt64.ofNat ((if negative then pow2 63 else 0) + magnitude)⟩

def infinityBits : Nat := 2047 * pow2 52

def infinity (negative : Bool) : Binary64 := ofBits negative infinityBits

def nan : Binary64 := ofBits false (infinityBits + pow2 51)

/-- The quotient rounded to the nearest integer, to the even one on a tie. -/
def roundDiv (n d : Nat) : Nat :=
  let q := n / d
  let r := n % d
  if 2 * r < d || (2 * r == d && q % 2 == 0) then q else q + 1

/-- The number nearest to `n / d`, for positive `n` and `d`. -/
def ofQuotient (negative : Bool) (n d : Nat) : Binary64 :=
  -- the quotient divided by two to the power of `e - 1074`
  let scale (e : Nat) : Nat × Nat := if e ≤ 1074 then (n * pow2 (1074 - e), d) else (n, d * pow2 (e - 1074))
  let e := n.log2 + 1074 - d.log2 - 53
  let e := if (scale e).1 / (scale e).2 ≥ pow2 53 then e + 1 else e
  let magnitude := e * pow2 52 + roundDiv (scale e).1 (scale e).2
  ofBits negative (min magnitude infinityBits)

/-- The number nearest to `digits` times ten to the power of `exponent`. -/
def ofDecimal (negative : Bool) (digits : Nat) (exponent : Int) : Binary64 :=
  let size : Int := digits.log2 / 3 + exponent
  if digits == 0 || size < -400 then ofBits negative 0
  else if exponent > 400 then infinity negative
  else if exponent < 0 then ofQuotient negative digits (Nat.pow 10 exponent.natAbs)
  else ofQuotient negative (digits * Nat.pow 10 exponent.natAbs) 1

/-- The same number, from its form of 32 bits. -/
def ofBinary32 (bits : UInt32) : Binary64 :=
  let n := bits.toNat
  let negative := n / pow2 31 == 1
  let e := n / pow2 23 % pow2 8
  let f := n % pow2 23
  if e == 255 then ofBits negative (infinityBits + f * pow2 29)
  else if e == 0 && f == 0 then ofBits negative 0
  else if e == 0 then ofQuotient negative f (pow2 149)
  else ofBits negative ((e + 896) * pow2 52 + f * pow2 29)

end Binary64

end FunctionInventory
