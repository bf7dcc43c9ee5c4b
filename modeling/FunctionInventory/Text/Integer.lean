import FunctionInventory.Text

/-!
# Integers in texts

Two readings are in use. The liberal one takes decimal digits of every script. The plain
one takes ASCII digits and drops a fractional part of zeros. Both admit blanks around the
number, a sign, and single underscores between digits.
-/
namespace FunctionInventory

namespace CodePoint

/-- The characters for zero; those for one to nine follow each of them. -/
def zeros : List Nat :=
  [0x30, 0x660, 0x6f0, 0x7c0, 0x966, 0x9e6, 0xa66, 0xae6, 0xb66, 0xbe6, 0xc66, 0xce6, 0xd66, 0xde6,
   0xe50, 0xed0, 0xf20, 0x1040, 0x1090, 0x17e0, 0x1810, 0x1946, 0x19d0, 0x1a80, 0x1a90, 0x1b50,
   0x1bb0, 0x1c40, 0x1c50, 0xa620, 0xa8d0, 0xa900, 0xa9d0, 0xa9f0, 0xaa50, 0xabf0, 0xff10, 0x104a0,
   0x10d30, 0x11066, 0x110f0, 0x11136, 0x111d0, 0x112f0, 0x11450, 0x114d0, 0x11650, 0x116c0,
   0x11730, 0x118e0, 0x11950, 0x11c50, 0x11d50, 0x11da0, 0x16a60, 0x16ac0, 0x16b50, 0x1d7ce,
   0x1d7d8, 0x1d7e2, 0x1d7ec, 0x1d7f6, 0x1e140, 0x1e2f0, 0x1e950, 0x1fbf0]

/-- The value of a decimal digit of any script. -/
def digit? (c : CodePoint) : Option Nat :=
  (zeros.find? fun z => z ≤ c.val && c.val < z + 10).map (c.val - ·)

/-- White space, control separators excluded. -/
def isSpace (c : CodePoint) : Bool := c.isBlank && !(28 ≤ c.val && c.val ≤ 31)

end CodePoint

namespace Text

def isCharAt (c : Char) (x : CodePoint) : Bool := x == .ofChar c

/-- Digits with single underscores between them; `n` is the number read so far, and
`ready` says whether the last character was a digit. -/
def digitsFrom (digit? : CodePoint → Option Nat) (n : Nat) (ready : Bool) : Text → Option Nat
  | [] => if ready then some n else none
  | c :: cs =>
    match digit? c with
    | some d => digitsFrom digit? (n * 10 + d) true cs
    | none => if isCharAt '_' c && ready then digitsFrom digit? n false cs else none

/-- Splits off a sign. -/
def signed : Text → Bool × Text
  | c :: cs => if isCharAt '-' c then (true, cs) else if isCharAt '+' c then (false, cs) else (false, c :: cs)
  | [] => (false, [])

/-- The liberal reading of an integer. -/
def toInt? (t : Text) : Option Int :=
  let (negative, rest) := signed (trim t)
  (digitsFrom CodePoint.digit? 0 false rest).map fun n => if negative then -(n : Int) else n

def asciiDigit? (c : CodePoint) : Option Nat :=
  if 48 ≤ c.val && c.val ≤ 57 then some (c.val - 48) else none

/-- Drops a point and the zeros behind it, if nothing else is there. -/
def withoutZeroFraction (t : Text) : Text :=
  match t.span (!isCharAt '.' ·) with
  | (whole, _ :: rest) => if rest.all (isCharAt '0') then whole else t
  | _ => t

/-- The plain reading of an integer. A negative number has no leading zeros. -/
def toPlainInt? (t : Text) : Option Int :=
  let body := ((t.dropWhile CodePoint.isSpace).reverse.dropWhile CodePoint.isSpace).reverse
  let (negative, digits) : Bool × Text := match body with
    | c :: cs => if isCharAt '-' c then (true, cs) else if isCharAt '+' c then (false, cs) else (false, c :: cs)
    | [] => (false, [])
  let digits := withoutZeroFraction digits
  let padded := match digits with
    | c :: _ :: _ => negative && isCharAt '0' c
    | _ => false
  if padded then none
  else (digitsFrom asciiDigit? 0 false digits).map fun n => if negative then -(n : Int) else n

end Text

end FunctionInventory
