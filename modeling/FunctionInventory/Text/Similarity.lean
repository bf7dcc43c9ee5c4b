import FunctionInventory.Text

/-!
# Similar words

Two words are as similar as the share of characters that they have in common, counted
along their longest common runs. Misspelled words are answered with similar ones.
-/
namespace FunctionInventory

namespace Text

/-- The length of the common beginning of two texts. -/
def commonPrefix : Text → Text → Nat
  | a :: as, b :: bs => if a = b then commonPrefix as bs + 1 else 0
  | _, _ => 0

/-- A common run: where it starts in the two texts, and its length. -/
structure Run where
  first : Nat
  second : Nat
  length : Nat

/-- The longest common run; of several the one that comes first. -/
def longestRun (a b : Text) : Run :=
  (List.range a.length).foldl (fun best i =>
    (List.range b.length).foldl (fun best j =>
      let k := commonPrefix (a.drop i) (b.drop j)
      if k > best.length then ⟨i, j, k⟩ else best) best) ⟨0, 0, 0⟩

/-- The number of characters in common runs: the longest run, and those before and
behind it. -/
def commonCount : (fuel : Nat) → Text → Text → Nat
  | 0, _, _ => 0
  | fuel + 1, a, b =>
    let r := longestRun a b
    if r.length = 0 then 0
    else
      r.length + commonCount fuel (a.take r.first) (b.take r.second) +
        commonCount fuel (a.drop (r.first + r.length)) (b.drop (r.second + r.length))

/-- How similar two words are: the numerator over the sum of their lengths. -/
def similarity (a b : Text) : Nat := 2 * commonCount a.length a b

/-- Of some words the three most similar to a given one, as far as they share three
fifths of their characters. -/
def closeMatches (word : Text) (words : List Text) : List Text :=
  let size (w : Text) : Nat := w.length + word.length
  let close := words.filter fun w => 5 * similarity w word ≥ 3 * size w
  let before (v w : Text) : Bool :=
    let x := similarity v word * size w
    let y := similarity w word * size v
    if x = y then !lt v w else y < x
  (close.mergeSort before).take 3

end Text

end FunctionInventory
