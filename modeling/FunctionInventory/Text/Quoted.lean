import FunctionInventory.Text.Printable

/-!
# Quoted texts in messages

A text is quoted by apostrophes, or by double quotes if it holds apostrophes only.
Characters that cannot be shown are escaped.
-/
namespace FunctionInventory

namespace Text

/-- The last `width` hexadecimal digits of a number. -/
def hexDigits (width n : Nat) : Text :=
  (List.range width).map fun i => .ofChar (Nat.digitChar ((n >>> (4 * (width - 1 - i))) % 16))

/-- A character between the given quotes. -/
def quotedChar (quote : Char) (c : CodePoint) : Text :=
  let n := c.val
  if c == .ofChar quote || n == 92 then [.ofChar '\\', c]
  else if n == 9 then "\\t"
  else if n == 10 then "\\n"
  else if n == 13 then "\\r"
  else if c.isPrintable then [c]
  else if n < 0x100 then ("\\x" : Text) ++ hexDigits 2 n
  else if n < 0x10000 then ("\\u" : Text) ++ hexDigits 4 n
  else ("\\U" : Text) ++ hexDigits 8 n

/-- A text in quotes. -/
def quoted (t : Text) : Text :=
  let holds (c : Char) : Bool := t.contains (.ofChar c)
  let quote := if holds '\x27' && !holds '\x22' then '\x22' else '\x27'
  .ofChar quote :: t.flatMap (quotedChar quote) ++ [.ofChar quote]

end Text

end FunctionInventory
