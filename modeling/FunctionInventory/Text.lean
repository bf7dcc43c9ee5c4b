/-!
# Text

A text is a list of code points. Lone surrogates are admitted, so a text need not be
a `String`. UTF-8 is used in two forms: the tolerant one gives surrogates their three
bytes, the strict one refuses them.
-/
namespace FunctionInventory

abbrev CodePoint := Fin 0x110000

abbrev Text := List CodePoint

namespace CodePoint

/-- Halves of surrogate pairs stand for no character of their own. -/
def isSurrogate (c : CodePoint) : Bool := 0xd800 ≤ c.val && c.val < 0xe000

/-- Blank characters, control separators included. -/
def isBlank (c : CodePoint) : Bool :=
  let n := c.val
  (9 ≤ n && n ≤ 13) || (28 ≤ n && n ≤ 32) || n == 0x85 || n == 0xa0 || n == 0x1680 ||
    (0x2000 ≤ n && n ≤ 0x200a) || n == 0x2028 || n == 0x2029 || n == 0x202f || n == 0x205f ||
    n == 0x3000

theorem toNat_lt (c : Char) : c.toNat < 0x110000 := by
  have h := c.valid
  simp only [UInt32.isValidChar, Nat.isValidChar] at h
  show c.val.toNat < _
  omega

def ofChar (c : Char) : CodePoint := ⟨c.toNat, toNat_lt c⟩

/-- The lower case of ASCII letters. -/
def toLower (c : CodePoint) : CodePoint :=
  if h : 65 ≤ c.val ∧ c.val ≤ 90 then ⟨c.val + 32, by omega⟩ else c

/-- The UTF-8 bytes of a code point. -/
def encode (c : CodePoint) : List UInt8 :=
  let n := c.val
  if n < 0x80 then [UInt8.ofNat n]
  else if n < 0x800 then [UInt8.ofNat (0xc0 + n / 64), UInt8.ofNat (0x80 + n % 64)]
  else if n < 0x10000 then
    [UInt8.ofNat (0xe0 + n / 4096), UInt8.ofNat (0x80 + n / 64 % 64), UInt8.ofNat (0x80 + n % 64)]
  else
    [UInt8.ofNat (0xf0 + n / 262144), UInt8.ofNat (0x80 + n / 4096 % 64),
      UInt8.ofNat (0x80 + n / 64 % 64), UInt8.ofNat (0x80 + n % 64)]

/-- A byte that continues a character. -/
def isContinuation (b : UInt8) : Bool := 0x80 ≤ b.toNat && b.toNat < 0xc0

/-- The code point `n` in front of `rest`, if it is in bounds and `ok` holds. -/
def accept (ok : Bool) (n : Nat) (rest : List UInt8) : Option (CodePoint × List UInt8) :=
  if h : ok ∧ n < 0x110000 then some (⟨n, h.2⟩, rest) else none

/-- Reads one code point in its shortest form; surrogates are admitted. -/
def decode? : List UInt8 → Option (CodePoint × List UInt8)
  | [] => none
  | a :: rest =>
    let n := a.toNat
    if n < 0x80 then accept true n rest
    else if n < 0xc0 then none
    else if n < 0xe0 then
      match rest with
      | b :: rest =>
        let m := (n - 0xc0) * 64 + (b.toNat - 0x80)
        accept (isContinuation b && 0x80 ≤ m) m rest
      | _ => none
    else if n < 0xf0 then
      match rest with
      | b :: c :: rest =>
        let m := (n - 0xe0) * 4096 + (b.toNat - 0x80) * 64 + (c.toNat - 0x80)
        accept (isContinuation b && isContinuation c && 0x800 ≤ m) m rest
      | _ => none
    else if n < 0xf8 then
      match rest with
      | b :: c :: d :: rest =>
        let m := (n - 0xf0) * 262144 + (b.toNat - 0x80) * 4096 + (c.toNat - 0x80) * 64 +
          (d.toNat - 0x80)
        accept (isContinuation b && isContinuation c && isContinuation d && 0x10000 ≤ m) m rest
      | _ => none
    else none

theorem accept_rest {ok : Bool} {n : Nat} {rest rest' : List UInt8} {c : CodePoint}
    (h : accept ok n rest = some (c, rest')) : rest' = rest := by
  unfold accept at h
  split at h <;> simp_all

theorem decode?_shorter {bytes rest : List UInt8} {c : CodePoint}
    (h : decode? bytes = some (c, rest)) : rest.length < bytes.length := by
  match bytes with
  | [] => simp [decode?] at h
  | a :: bs =>
    simp only [decode?] at h
    repeat' split at h
    all_goals first
      | contradiction
      | (rw [accept_rest h]; simp only [List.length_cons]; omega)

end CodePoint

namespace Text

def ofString (s : String) : Text := s.toList.map CodePoint.ofChar

instance : Coe String Text := ⟨ofString⟩

/-- The UTF-8 bytes of a text, surrogates included. -/
def encode (t : Text) : List UInt8 := t.flatMap CodePoint.encode

/-- Reads bytes as a text; surrogates are admitted. -/
def decode? (bytes : List UInt8) : Option Text :=
  match bytes with
  | [] => some []
  | b :: bs =>
    match _h : CodePoint.decode? (b :: bs) with
    | none => none
    | some (c, rest) => (decode? rest).map (c :: ·)
termination_by bytes.length
decreasing_by exact CodePoint.decode?_shorter (by assumption)

def hasSurrogate (t : Text) : Bool := t.any CodePoint.isSurrogate

/-- The UTF-8 bytes of a text without surrogates. -/
def encodeStrict? (t : Text) : Option (List UInt8) := if hasSurrogate t then none else some (encode t)

/-- Reads bytes as a text without surrogates. -/
def decodeStrict? (bytes : List UInt8) : Option Text :=
  match decode? bytes with
  | some t => if hasSurrogate t then none else some t
  | none => none

/-- Drops blanks at the front. -/
def trimLeft (t : Text) : Text := t.dropWhile CodePoint.isBlank

/-- Drops blanks at both ends. -/
def trim (t : Text) : Text := (trimLeft (trimLeft t).reverse).reverse

/-- Whether a text has nothing but blanks. -/
def isBlank (t : Text) : Bool := t.all CodePoint.isBlank

/-- Order by code points. -/
def lt : Text → Text → Bool
  | _, [] => false
  | [], _ :: _ => true
  | a :: as, b :: bs => if a.val < b.val then true else if b.val < a.val then false else lt as bs

theorem lt_irrefl : (t : Text) → lt t t = false
  | [] => rfl
  | c :: t => by simp [lt, lt_irrefl t]

theorem lt_trans : {a b c : Text} → lt a b → lt b c → lt a c
  | _, [], _, h, _ => by simp [lt] at h
  | _, _ :: _, [], _, h => by simp [lt] at h
  | [], _ :: _, _ :: _, _, _ => by simp [lt]
  | x :: a, y :: b, z :: c, h, k => by
    simp only [lt] at *
    by_cases hxy : x.val < y.val
    · by_cases hyz : y.val < z.val
      · simp [Nat.lt_trans hxy hyz]
      · by_cases hzy : z.val < y.val
        · simp [hyz, hzy] at k
        · have : x.val < z.val := by omega
          simp [this]
    · by_cases hyx : y.val < x.val
      · simp [hxy, hyx] at h
      · simp only [hxy, hyx, if_false] at h
        by_cases hyz : y.val < z.val
        · have : x.val < z.val := by omega
          simp [this]
        · by_cases hzy : z.val < y.val
          · simp [hyz, hzy] at k
          · simp only [hyz, hzy, if_false] at k
            have h₁ : ¬ x.val < z.val := by omega
            have h₂ : ¬ z.val < x.val := by omega
            simp only [h₁, h₂, if_false]
            exact lt_trans h k

theorem eq_of_not_lt : {a b : Text} → lt a b = false → lt b a = false → a = b
  | [], [], _, _ => rfl
  | [], _ :: _, h, _ => by simp [lt] at h
  | _ :: _, [], _, h => by simp [lt] at h
  | x :: a, y :: b, h, k => by
    simp only [lt] at h k
    by_cases hxy : x.val < y.val
    · simp [hxy] at h
    · by_cases hyx : y.val < x.val
      · simp [hyx] at k
      · simp only [hxy, hyx, if_false] at h k
        have : x = y := Fin.ext (by omega)
        rw [this, eq_of_not_lt h k]

/-- The text as a string; surrogates become replacement characters. -/
def toString (t : Text) : String :=
  String.ofList (t.map fun c => if c.isSurrogate then '\ufffd' else Char.ofNat c.val)

end Text

end FunctionInventory
