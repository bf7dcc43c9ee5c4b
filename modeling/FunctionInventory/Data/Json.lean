import FunctionInventory.Data.Value

/-!
# JSON

Values are read from JSON text and written as JSON text in ASCII. Escapes may name
single surrogates; a pair of them is one character.
-/
namespace FunctionInventory

namespace Json

/-- A mark of the notation or a scalar. -/
inductive Symbol where
  | openList
  | closeList
  | openMap
  | closeMap
  | colon
  | comma
  | scalar (v : Value)

/-- Joins a high surrogate and a low one behind it. -/
def joinPairs : Text → Text
  | a :: b :: rest =>
    if h : 0xd800 ≤ a.val ∧ a.val < 0xdc00 ∧ 0xdc00 ≤ b.val ∧ b.val < 0xe000 then
      ⟨0x10000 + (a.val - 0xd800) * 0x400 + (b.val - 0xdc00), by omega⟩ :: joinPairs rest
    else a :: joinPairs (b :: rest)
  | rest => rest

def hexDigit? (c : Char) : Option Nat :=
  if '0' ≤ c && c ≤ '9' then some (c.toNat - 48)
  else if 'a' ≤ c && c ≤ 'f' then some (c.toNat - 87)
  else if 'A' ≤ c && c ≤ 'F' then some (c.toNat - 55)
  else none

/-- The code point of four hexadecimal digits. -/
def unit? (a b c d : Char) : Option CodePoint := do
  let n := (((← hexDigit? a) * 16 + (← hexDigit? b)) * 16 + (← hexDigit? c)) * 16 + (← hexDigit? d)
  if h : n < 0x110000 then some ⟨n, h⟩ else none

/-- The character that a short escape stands for. -/
def shortEscape? : Char → Option Char
  | '\x22' => some '\x22'
  | '\\' => some '\\'
  | '/' => some '/'
  | 'b' => some '\x08'
  | 'f' => some '\x0c'
  | 'n' => some '\n'
  | 'r' => some '\r'
  | 't' => some '\t'
  | _ => none

/-- Reads the rest of a text up to its closing quote; `acc` holds what is read, the
last character first. -/
def textRest : List Char → Text → Option (Text × List Char)
  | '\x22' :: rest, acc => some (joinPairs acc.reverse, rest)
  | '\\' :: 'u' :: a :: b :: c :: d :: rest, acc => do textRest rest ((← unit? a b c d) :: acc)
  | '\\' :: e :: rest, acc => do textRest rest (.ofChar (← shortEscape? e) :: acc)
  | c :: rest, acc => textRest rest (.ofChar c :: acc)
  | [], _ => none

theorem textRest_shorter {cs rest : List Char} {acc t : Text}
    (h : textRest cs acc = some (t, rest)) : rest.length < cs.length := by
  fun_induction textRest cs acc with
  | case1 => simp_all
  | case2 a b c d r acc ih =>
    cases hu : unit? a b c d with
    | none => simp [hu] at h
    | some u => simp only [hu, Option.bind_eq_bind, Option.bind_some] at h
                have := ih u h
                simp only [List.length_cons]
                omega
  | case3 e r acc _ ih =>
    cases hu : shortEscape? e with
    | none => simp [hu] at h
    | some u => simp only [hu, Option.bind_eq_bind, Option.bind_some] at h
                have := ih u h
                simp only [List.length_cons]
                omega
  | case4 c r acc _ _ _ ih =>
    have := ih h
    simp only [List.length_cons]
    omega
  | case5 => simp at h

def digits (cs : List Char) : Nat := cs.foldl (fun n c => n * 10 + (c.toNat - 48)) 0

def isNumberChar (c : Char) : Bool := c.isDigit || c == '-' || c == '+' || c == '.' || c == 'e' || c == 'E'

/-- The number that a run of characters denotes: an integer unless it has a fraction
or an exponent. -/
def number? (cs : List Char) : Option Value :=
  let negative := cs.head? == some '-'
  let cs := if negative then cs.drop 1 else cs
  let whole := cs.takeWhile Char.isDigit
  let rest := cs.dropWhile Char.isDigit
  if whole.isEmpty then none
  else if rest.isEmpty then
    let n : Int := digits whole
    some (.int (if negative then -n else n))
  else
    let (fraction, rest) := match rest with
      | '.' :: r => (r.takeWhile Char.isDigit, r.dropWhile Char.isDigit)
      | r => ([], r)
    let exponent : Option Int := match rest with
      | [] => some 0
      | e :: r =>
        if e != 'e' && e != 'E' then none
        else
          let (sign, r) : Int × List Char := match r with
            | '-' :: r => (-1, r)
            | '+' :: r => (1, r)
            | r => (1, r)
          if r.isEmpty || !r.all Char.isDigit then none else some (sign * digits r)
    exponent.map fun e =>
      .real (.ofDecimal negative (digits (whole ++ fraction)) (e - fraction.length))

/-- The scalar that a word names. -/
def word? (cs : List Char) : Option Value :=
  match String.ofList cs with
  | "null" => some .null
  | "true" => some (.bool true)
  | "false" => some (.bool false)
  | "NaN" => some (.real .nan)
  | "Infinity" => some (.real (.infinity false))
  | _ => none

/-- Splits a text into symbols. -/
def symbols : List Char → Option (List Symbol)
  | [] => some []
  | c :: cs =>
    if c == ' ' || c == '\n' || c == '\t' || c == '\r' then symbols cs
    else if c == '[' then (symbols cs).map (.openList :: ·)
    else if c == ']' then (symbols cs).map (.closeList :: ·)
    else if c == '\x7b' then (symbols cs).map (.openMap :: ·)
    else if c == '\x7d' then (symbols cs).map (.closeMap :: ·)
    else if c == ':' then (symbols cs).map (.colon :: ·)
    else if c == ',' then (symbols cs).map (.comma :: ·)
    else if c == '\x22' then
      match _h : textRest cs [] with
      | some (t, rest) => (symbols rest).map (.scalar (.text t) :: ·)
      | none => none
    else if c.isAlpha then
      match word? (c :: cs.takeWhile Char.isAlpha) with
      | some v => (symbols (cs.dropWhile Char.isAlpha)).map (.scalar v :: ·)
      | none => none
    else if c == '-' && cs.head? == some 'I' then
      if cs.takeWhile Char.isAlpha == "Infinity".toList then
        (symbols (cs.dropWhile Char.isAlpha)).map (.scalar (.real (.infinity true)) :: ·)
      else none
    else
      match number? (c :: cs.takeWhile isNumberChar) with
      | some v => (symbols (cs.dropWhile isNumberChar)).map (.scalar v :: ·)
      | none => none
termination_by cs => cs.length
decreasing_by
  all_goals simp only [List.length_cons]
  all_goals try have h := textRest_shorter (by assumption)
  all_goals have h₁ := (List.dropWhile_suffix (l := cs) Char.isAlpha).length_le
  all_goals have h₂ := (List.dropWhile_suffix (l := cs) isNumberChar).length_le
  all_goals omega

mutual

/-- Reads a value; every step uses up a symbol, so their number bounds the depth. -/
def value : (fuel : Nat) → List Symbol → Option (Value × List Symbol)
  | _ + 1, .scalar v :: rest => some (v, rest)
  | _ + 1, .openList :: .closeList :: rest => some (.list [], rest)
  | _ + 1, .openMap :: .closeMap :: rest => some (.map [], rest)
  | fuel + 1, .openList :: rest => items fuel rest []
  | fuel + 1, .openMap :: rest => members fuel rest []
  | _, _ => none

/-- Reads the items of a list; those before are in `acc`, the last one first. -/
def items : (fuel : Nat) → List Symbol → List Value → Option (Value × List Symbol)
  | 0, _, _ => none
  | fuel + 1, rest, acc =>
    match value fuel rest with
    | some (v, .comma :: rest) => items fuel rest (v :: acc)
    | some (v, .closeList :: rest) => some (.list (v :: acc).reverse, rest)
    | _ => none

/-- Reads the members of a map; those before are in `acc`. -/
def members : (fuel : Nat) → List Symbol → List (Value × Value) → Option (Value × List Symbol)
  | fuel + 1, .scalar (.text key) :: .colon :: rest, acc =>
    match value fuel rest with
    | some (v, .comma :: rest) => members fuel rest (Value.put (.text key) v acc)
    | some (v, .closeMap :: rest) => some (.map (Value.put (.text key) v acc), rest)
    | _ => none
  | _, _, _ => none

end

/-- Reads a whole text as one value. -/
def read? (s : String) : Option Value := do
  let all ← symbols s.toList
  match value (all.length + 1) all with
  | some (v, []) => some v
  | _ => none

def hexChar (n : Nat) : Char := (Nat.digitChar n)

/-- Four hexadecimal digits behind the mark of an escape. -/
def escapeUnit (out : String) (n : Nat) : String :=
  ((((out ++ "\\u").push (hexChar (n / 4096 % 16))).push (hexChar (n / 256 % 16))).push
    (hexChar (n / 16 % 16))).push (hexChar (n % 16))

/-- Adds a character as it stands in a quoted text. -/
def writeChar (out : String) (c : CodePoint) : String :=
  let n := c.val
  if n == 34 then out ++ "\\\""
  else if n == 92 then out ++ "\\\\"
  else if n == 10 then out ++ "\\n"
  else if n == 13 then out ++ "\\r"
  else if n == 9 then out ++ "\\t"
  else if n == 8 then out ++ "\\b"
  else if n == 12 then out ++ "\\f"
  else if 32 ≤ n && n < 127 then out.push (Char.ofNat n)
  else if n < 0x10000 then escapeUnit out n
  else
    let m := n - 0x10000
    escapeUnit (escapeUnit out (0xd800 + m / 0x400)) (0xdc00 + m % 0x400)

def writeText (out : String) (t : Text) : String := (t.foldl writeChar (out.push '\x22')).push '\x22'

/-- Items are either on one line or each on a line of its own, indented by a number
of blanks per level. -/
abbrev Layout := Option Nat

/-- The break in front of an item at the given level. -/
def lineBreak (layout : Layout) (level : Nat) : String :=
  match layout with
  | some width => "\n".pushn ' ' (width * level)
  | none => ""

/-- What stands between two items. -/
def separator (layout : Layout) (level : Nat) : String :=
  match layout with
  | some _ => "," ++ lineBreak layout level
  | none => ", "

/-- Adds a key, written as a text. -/
def writeKey (out : String) : Value → String
  | .text t => writeText out t
  | .int i => writeText out (toString i)
  | .bool b => writeText out (if b then "true" else "false")
  | _ => writeText out "null"

mutual

/-- Adds a value; what has no place in JSON is written as null. -/
def write (layout : Layout) (level : Nat) (out : String) : Value → String
  | .null => out ++ "null"
  | .bool b => out ++ (if b then "true" else "false")
  | .int i => out ++ toString i
  | .text t => writeText out t
  | .list [] => out ++ "[]"
  | .list (v :: vs) =>
    let out := write layout (level + 1) (out ++ "[" ++ lineBreak layout (level + 1)) v
    writeItems layout (level + 1) out vs ++ lineBreak layout level ++ "]"
  | .map [] => out ++ "\x7b\x7d"
  | .map ((k, v) :: ms) =>
    let out := writeKey (out ++ "\x7b" ++ lineBreak layout (level + 1)) k
    let out := write layout (level + 1) (out ++ ": ") v
    writeMembers layout (level + 1) out ms ++ lineBreak layout level ++ "\x7d"
  | .real _ | .bytes _ | .extension .. | .moment .. => out ++ "null"

def writeItems (layout : Layout) (level : Nat) (out : String) : List Value → String
  | [] => out
  | v :: vs => writeItems layout level (write layout level (out ++ separator layout level) v) vs

def writeMembers (layout : Layout) (level : Nat) (out : String) : List (Value × Value) → String
  | [] => out
  | (k, v) :: ms =>
    let out := writeKey (out ++ separator layout level) k
    writeMembers layout level (write layout level (out ++ ": ") v) ms

end

end Json

/-- The JSON text of a value. -/
def Value.toJson (layout : Json.Layout) (v : Value) : String := Json.write layout 0 "" v

end FunctionInventory
