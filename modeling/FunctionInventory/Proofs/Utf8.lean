import FunctionInventory.SourceText
import Mathlib.Data.List.Infix

/-!
# Texts and their bytes

Reading undoes writing, and only what was written can be read. Bytes that continue a code
point are told from those that start one, so that a text cut out of the bytes of another
text is a part of it.
-/
namespace FunctionInventory

theorem toNat_ofNat_of_lt {n : Nat} (h : n < 256) : (UInt8.ofNat n).toNat = n :=
  UInt8.toNat_ofNat_of_lt' h

namespace CodePoint

theorem accept_eq_some {ok : Bool} {n : Nat} {rest rest' : List UInt8} {c : CodePoint} :
    accept ok n rest = some (c, rest') ↔ ok = true ∧ c.val = n ∧ rest' = rest := by
  unfold accept
  split
  · next h =>
    simp only [Option.some.injEq, Prod.mk.injEq, h.1, true_and]
    constructor
    · rintro ⟨rfl, rfl⟩
      exact ⟨rfl, rfl⟩
    · rintro ⟨hc, rfl⟩
      exact ⟨Fin.ext hc.symm, rfl⟩
  · next h =>
    simp only [false_iff, reduceCtorEq]
    rintro ⟨hok, hc, -⟩
    exact h ⟨hok, hc ▸ c.isLt⟩

theorem isContinuation_ofNat {n : Nat} : isContinuation (UInt8.ofNat (0x80 + n % 64)) = true := by
  have h : (UInt8.ofNat (0x80 + n % 64)).toNat = 0x80 + n % 64 := toNat_ofNat_of_lt (by omega)
  simp only [isContinuation, h, Bool.and_eq_true, decide_eq_true_eq]
  omega

/-- Reading a code point undoes writing it. -/
theorem decode?_encode (c : CodePoint) (rest : List UInt8) :
    decode? (encode c ++ rest) = some (c, rest) := by
  have hc := c.isLt
  have tail : ∀ n, (UInt8.ofNat (0x80 + n % 64)).toNat = 0x80 + n % 64 :=
    fun n => toNat_ofNat_of_lt (by omega)
  unfold encode
  dsimp only
  split
  · next h =>
    have h₀ : (UInt8.ofNat c.val).toNat = c.val := toNat_ofNat_of_lt (by omega)
    simp only [List.cons_append, List.nil_append, decode?, h₀, if_pos h]
    exact accept_eq_some.2 ⟨rfl, rfl, rfl⟩
  split
  · next h h' =>
    have h₀ : (UInt8.ofNat (0xc0 + c.val / 64)).toNat = 0xc0 + c.val / 64 :=
      toNat_ofNat_of_lt (by omega)
    simp only [List.cons_append, List.nil_append, decode?, h₀, tail]
    rw [if_neg (by omega), if_neg (by omega), if_pos (by omega)]
    refine accept_eq_some.2 ⟨?_, ?_, rfl⟩
    · simp only [isContinuation_ofNat, Bool.true_and, decide_eq_true_eq]
      omega
    · omega
  split
  · next h h' h'' =>
    have h₀ : (UInt8.ofNat (0xe0 + c.val / 4096)).toNat = 0xe0 + c.val / 4096 :=
      toNat_ofNat_of_lt (by omega)
    simp only [List.cons_append, List.nil_append, decode?, h₀, tail]
    rw [if_neg (by omega), if_neg (by omega), if_neg (by omega), if_pos (by omega)]
    refine accept_eq_some.2 ⟨?_, ?_, rfl⟩
    · simp only [isContinuation_ofNat, Bool.true_and, decide_eq_true_eq]
      omega
    · omega
  · next h h' h'' =>
    have h₀ : (UInt8.ofNat (0xf0 + c.val / 262144)).toNat = 0xf0 + c.val / 262144 :=
      toNat_ofNat_of_lt (by omega)
    simp only [List.cons_append, List.nil_append, decode?, h₀, tail]
    rw [if_neg (by omega), if_neg (by omega), if_neg (by omega), if_neg (by omega),
      if_pos (by omega)]
    refine accept_eq_some.2 ⟨?_, ?_, rfl⟩
    · simp only [isContinuation_ofNat, Bool.true_and, decide_eq_true_eq]
      omega
    · omega

theorem ofNat_eq_of_toNat_eq {b : UInt8} {n : Nat} (h : b.toNat = n) : UInt8.ofNat n = b := by
  rw [← h, UInt8.ofNat_toNat]

theorem isContinuation_iff {b : UInt8} :
    isContinuation b = true ↔ 0x80 ≤ b.toNat ∧ b.toNat < 0xc0 := by
  simp [isContinuation]

/-- What was read is what writing gives: no code point has a second form. -/
theorem eq_encode_of_decode? {bytes rest : List UInt8} {c : CodePoint}
    (h : decode? bytes = some (c, rest)) : bytes = encode c ++ rest := by
  unfold decode? at h
  split at h
  · cases h
  next a tail =>
  have ha : a.toNat < 256 := a.toNat_lt
  dsimp only at h
  split at h
  · obtain ⟨-, hc, rfl⟩ := accept_eq_some.1 h
    simp only [encode, hc]
    rw [if_pos (by omega), ofNat_eq_of_toNat_eq rfl]
    rfl
  split at h
  · cases h
  split at h
  · split at h
    · next b tail =>
      obtain ⟨hok, hc, rfl⟩ := accept_eq_some.1 h
      simp only [Bool.and_eq_true, isContinuation_iff, decide_eq_true_eq] at hok
      simp only [encode, hc]
      rw [if_neg (by omega), if_pos (by omega), ofNat_eq_of_toNat_eq (b := a) (by omega),
        ofNat_eq_of_toNat_eq (b := b) (by omega)]
      rfl
    · cases h
  split at h
  · split at h
    · next b d tail =>
      obtain ⟨hok, hc, rfl⟩ := accept_eq_some.1 h
      simp only [Bool.and_eq_true, isContinuation_iff, decide_eq_true_eq] at hok
      simp only [encode, hc]
      rw [if_neg (by omega), if_neg (by omega), if_pos (by omega),
        ofNat_eq_of_toNat_eq (b := a) (by omega), ofNat_eq_of_toNat_eq (b := b) (by omega),
        ofNat_eq_of_toNat_eq (b := d) (by omega)]
      rfl
    · cases h
  split at h
  · split at h
    · next b d e tail =>
      obtain ⟨hok, hc, rfl⟩ := accept_eq_some.1 h
      have hlt := c.isLt
      simp only [Bool.and_eq_true, isContinuation_iff, decide_eq_true_eq] at hok
      simp only [encode, hc]
      rw [if_neg (by omega), if_neg (by omega), if_neg (by omega),
        ofNat_eq_of_toNat_eq (b := a) (by omega), ofNat_eq_of_toNat_eq (b := b) (by omega),
        ofNat_eq_of_toNat_eq (b := d) (by omega), ofNat_eq_of_toNat_eq (b := e) (by omega)]
      rfl
    · cases h
  · cases h

/-- A written code point is one byte that continues nothing, and then bytes that do. -/
theorem exists_encode_eq (c : CodePoint) :
    ∃ a tail, encode c = a :: tail ∧ isContinuation a = false ∧
      ∀ b ∈ tail, isContinuation b = true := by
  have hc := c.isLt
  have lead : ∀ n, n < 256 → (n < 0x80 ∨ 0xc0 ≤ n) → isContinuation (UInt8.ofNat n) = false := by
    intro n hn h
    rw [Bool.eq_false_iff, Ne, isContinuation_iff, toNat_ofNat_of_lt hn]
    omega
  unfold encode
  dsimp only
  split_ifs with h₁ h₂ h₃
  · exact ⟨_, _, rfl, lead _ (by omega) (by omega), by simp⟩
  · exact ⟨_, _, rfl, lead _ (by omega) (by omega), by
      simp only [List.forall_mem_cons, isContinuation_ofNat, List.not_mem_nil, false_implies,
        implies_true, and_self]⟩
  · exact ⟨_, _, rfl, lead _ (by omega) (by omega), by
      simp only [List.forall_mem_cons, isContinuation_ofNat, List.not_mem_nil, false_implies,
        implies_true, and_self]⟩
  · exact ⟨_, _, rfl, lead _ (by omega) (by omega), by
      simp only [List.forall_mem_cons, isContinuation_ofNat, List.not_mem_nil, false_implies,
        implies_true, and_self]⟩

theorem encode_ne_nil (c : CodePoint) : encode c ≠ [] := by
  obtain ⟨a, tail, h, -, -⟩ := exists_encode_eq c
  simp [h]

/-- Among the bytes of code points, only that of a line feed is one. -/
theorem count_encode (c : CodePoint) :
    c.encode.count 10 = if c = ofChar '\n' then 1 else 0 := by
  obtain ⟨a, tail, hbytes, -, htail⟩ := exists_encode_eq c
  have hcount : tail.count 10 = 0 := by
    rw [List.count_eq_zero]
    intro hmem
    exact absurd (htail 10 hmem) (by decide)
  by_cases hc : c = ofChar '\n'
  · rw [hc]
    decide
  · have ha : a ≠ 10 := by
      rintro rfl
      have hread := decode?_encode c []
      rw [hbytes] at hread
      change accept true 10 (tail ++ []) = _ at hread
      exact hc (Fin.ext (accept_eq_some.1 hread).2.1)
    rw [hbytes, if_neg hc, List.count_cons_of_ne ha, hcount]

end CodePoint

namespace Text

@[simp] theorem encode_nil : encode [] = [] := rfl

@[simp] theorem encode_cons (c : CodePoint) (t : Text) :
    encode (c :: t) = c.encode ++ encode t := rfl

@[simp] theorem encode_append (t u : Text) : encode (t ++ u) = encode t ++ encode u := by
  simp [encode]

theorem decode?_cons_of_eq {bytes rest : List UInt8} {c : CodePoint}
    (h : CodePoint.decode? bytes = some (c, rest)) :
    decode? bytes = (decode? rest).map (c :: ·) := by
  cases bytes with
  | nil => simp [CodePoint.decode?] at h
  | cons b bs =>
    rw [decode?]
    split
    · next h' => rw [h] at h'; cases h'
    · next h' => rw [h] at h'; cases h'; rfl

/-- Reading a text undoes writing it. -/
theorem decode?_encode (t : Text) : decode? (encode t) = some t := by
  induction t with
  | nil => rw [encode_nil, decode?]
  | cons c t ih => rw [encode_cons, decode?_cons_of_eq (CodePoint.decode?_encode c _), ih]; rfl

theorem eq_encode_of_decode? {bytes : List UInt8} {t : Text} (h : decode? bytes = some t) :
    bytes = encode t := by
  fun_induction decode? bytes generalizing t with
  | case1 => cases h; rfl
  | case2 => cases h
  | case3 b bs c rest hc ih =>
    obtain ⟨u, hu, rfl⟩ := Option.map_eq_some_iff.1 h
    rw [encode_cons, ← ih hu]
    exact CodePoint.eq_encode_of_decode? hc

theorem decode?_eq_some_iff {bytes : List UInt8} {t : Text} :
    decode? bytes = some t ↔ bytes = encode t :=
  ⟨eq_encode_of_decode?, fun h => h ▸ decode?_encode t⟩

theorem encode_injective : Function.Injective encode := by
  intro t u h
  have ht := decode?_encode t
  rw [h, decode?_encode] at ht
  exact (Option.some.inj ht).symm

/-- A text that is written at the start of a written text is the start of that text. -/
theorem exists_append_of_encode_append {t u : Text} {rest : List UInt8}
    (h : encode t = encode u ++ rest) : ∃ v, t = u ++ v ∧ rest = encode v := by
  induction u generalizing t with
  | nil => exact ⟨t, rfl, by simpa using h.symm⟩
  | cons c u ih =>
    cases t with
    | nil =>
      have := CodePoint.encode_ne_nil c
      simp_all
    | cons d t =>
      rw [encode_cons, encode_cons, List.append_assoc] at h
      have hd := CodePoint.decode?_encode d (encode t)
      rw [h, CodePoint.decode?_encode] at hd
      obtain ⟨rfl, hrest⟩ := Prod.mk.inj (Option.some.inj hd)
      obtain ⟨v, rfl, hv⟩ := ih hrest.symm
      exact ⟨v, rfl, hv⟩

/-- A written text is cut between two code points wherever what follows starts with no
byte that continues one. -/
theorem exists_split_of_encode_eq {t : Text} {x : List UInt8} {y : UInt8} {ys : List UInt8}
    (h : encode t = x ++ y :: ys) (hy : CodePoint.isContinuation y = false) :
    ∃ u v, t = u ++ v ∧ x = encode u ∧ y :: ys = encode v := by
  induction t generalizing x with
  | nil => simp at h
  | cons c t ih =>
    by_cases hx : x = []
    · subst hx
      exact ⟨[], c :: t, rfl, rfl, h.symm⟩
    · obtain ⟨a, tail, hc, -, htail⟩ := CodePoint.exists_encode_eq c
      rw [encode_cons] at h
      rcases List.append_eq_append_iff.1 h with ⟨x', rfl, hx'⟩ | ⟨c', hc', hy'⟩
      · obtain ⟨u, v, rfl, rfl, hv⟩ := ih hx'
        exact ⟨c :: u, v, rfl, rfl, hv⟩
      · cases c' with
        | nil => exact ⟨[c], t, rfl, by simpa using hc'.symm, by simpa using hy'⟩
        | cons y' c' =>
          obtain ⟨rfl, -⟩ := List.cons.inj hy'
          cases x with
          | nil => contradiction
          | cons a' x =>
            have hmem : y ∈ tail := by
              rw [hc] at hc'
              simp [(List.cons.inj hc').2]
            rw [htail y hmem] at hy
            cases hy

/-- Where the bytes of a text stand among those of another one, the text stands in that one. -/
theorem exists_part_of_encode_eq {t part : Text} {x z : List UInt8}
    (h : encode t = x ++ encode part ++ z) (hne : part ≠ []) :
    ∃ before after, t = before ++ part ++ after ∧ encode before = x ∧ encode after = z := by
  cases part with
  | nil => contradiction
  | cons c part =>
    obtain ⟨a, tail, hc, ha, -⟩ := CodePoint.exists_encode_eq c
    have hsplit : encode t = x ++ a :: (tail ++ encode part ++ z) := by simp [h, hc]
    obtain ⟨before, rest, rfl, hx, hrest⟩ := exists_split_of_encode_eq hsplit ha
    have hstart : encode rest = encode (c :: part) ++ z := by simp [← hrest, hc]
    obtain ⟨after, rfl, hz⟩ := exists_append_of_encode_append hstart
    exact ⟨before, after, by simp, hx.symm, hz.symm⟩

/-- A text that can be cut out of the bytes of another one is a part of it. -/
theorem isInfix_of_decode? {x y z : List UInt8} {t u : Text}
    (ht : decode? (x ++ y ++ z) = some t) (hu : decode? y = some u) : u <:+: t := by
  rw [decode?_eq_some_iff] at ht hu
  by_cases hne : u = []
  · simp [hne]
  · obtain ⟨before, after, rfl, -, -⟩ := exists_part_of_encode_eq (hu ▸ ht.symm) hne
    exact ⟨before, after, rfl⟩

/-- A text has as many line feeds as its bytes. -/
theorem count_encode (t : Text) : t.encode.count 10 = t.count (CodePoint.ofChar '\n') := by
  induction t with
  | nil => rfl
  | cons c t ih =>
    rw [encode_cons, List.count_append, CodePoint.count_encode, ih, List.count_cons]
    simp only [beq_iff_eq]
    omega

end Text

namespace SourceText

theorem slice_eq_ok_iff {src : SourceText} {start stop : Nat} {t : Text} :
    src.slice start stop = .ok t ↔ Text.decode? (src.bytes.extract start stop).toList = some t := by
  unfold slice
  split <;> simp_all

/-- The text of a part of an extent is a part of the text of that extent. -/
theorem isInfix_of_slice {src : SourceText} {start stop start' stop' : Nat} {t u : Text}
    (hstart : start ≤ start') (hle : start' ≤ stop') (hstop : stop' ≤ stop)
    (ht : src.slice start stop = .ok t) (hu : src.slice start' stop' = .ok u) : u <:+: t := by
  rw [slice_eq_ok_iff] at ht hu
  have hparts : src.bytes.extract start start' ++ src.bytes.extract start' stop' ++
      src.bytes.extract stop' stop = src.bytes.extract start stop := by
    rw [Array.extract_append_extract, Nat.min_eq_left hstart, Nat.max_eq_right hle,
      Array.extract_append_extract, Nat.min_eq_left (hstart.trans hle), Nat.max_eq_right hstop]
  rw [← hparts, Array.toList_append, Array.toList_append] at ht
  exact Text.isInfix_of_decode? ht hu

end SourceText

end FunctionInventory
