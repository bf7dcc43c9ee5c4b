import FunctionInventory.Text

/-!
# Reading bytes of unknown quality

Bytes that are not UTF-8 are replaced: every longest beginning of a character that does
not go on as one becomes a single replacement character. Line ends are made equal.
-/
namespace FunctionInventory

namespace Text

def replacement : CodePoint := ⟨0xfffd, by decide⟩

/-- How a character goes on behind its first byte: the bounds of the second byte, and how
many bytes follow in all. -/
def continuation (lead : UInt8) : Option (Nat × Nat × Nat) :=
  let b := lead.toNat
  if b < 0xc2 then none
  else if b < 0xe0 then some (0x80, 0xbf, 1)
  else if b == 0xe0 then some (0xa0, 0xbf, 2)
  else if b == 0xed then some (0x80, 0x9f, 2)
  else if b < 0xf0 then some (0x80, 0xbf, 2)
  else if b == 0xf0 then some (0x90, 0xbf, 3)
  else if b < 0xf4 then some (0x80, 0xbf, 3)
  else if b == 0xf4 then some (0x80, 0x8f, 3)
  else none

/-- How many of the next bytes go on with a character. -/
def matching : (lo hi count : Nat) → List UInt8 → Nat
  | _, _, 0, _ => 0
  | _, _, _ + 1, [] => 0
  | lo, hi, count + 1, b :: bs =>
    if lo ≤ b.toNat && b.toNat ≤ hi then matching 0x80 0xbf count bs + 1 else 0

/-- Reads bytes as a text; what is not UTF-8 is replaced. -/
def decodeReplacing (bytes : List UInt8) : Text :=
  match bytes with
  | [] => []
  | b :: bs =>
    match CodePoint.decode? (b :: bs), continuation b with
    | some (c, _), none =>
      if b.toNat < 0x80 then c :: decodeReplacing bs else replacement :: decodeReplacing bs
    | none, none => replacement :: decodeReplacing bs
    | read, some (lo, hi, count) =>
      let n := matching lo hi count bs
      let c := if n == count then (read.map (·.1)).getD replacement else replacement
      c :: decodeReplacing (bs.drop n)
termination_by bytes.length
decreasing_by all_goals simp; try omega

/-- Writes every line end as a line feed. -/
def unifyLineEnds : Text → Text
  | [] => []
  | c :: cs =>
    if c.val == 13 then
      match cs with
      | d :: ds => if d.val == 10 then d :: unifyLineEnds ds else ⟨10, by decide⟩ :: unifyLineEnds (d :: ds)
      | [] => [⟨10, by decide⟩]
    else c :: unifyLineEnds cs

end Text

end FunctionInventory
