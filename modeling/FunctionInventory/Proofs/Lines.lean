import FunctionInventory.SourceText
import Mathlib.Data.List.Pairwise
import Mathlib.Logic.Relation
import Mathlib.Order.Nat

/-!
# Lines of offsets

The search for line feeds, which starts again behind each one it finds, gives the table of
line starts. The table is increasing, and the search in it finds the place at which
the starts exceed the offset. So later offsets are on later lines, and the line of an
offset counts the line feeds before it.
-/
namespace FunctionInventory.SourceText

/-- The offset behind each line feed, counted from `i` on. -/
def breaksFrom : (i : Nat) → List UInt8 → List Nat
  | _, [] => []
  | i, b :: bs => if b == 10 then (i + 1) :: breaksFrom (i + 1) bs else breaksFrom (i + 1) bs

theorem mem_breaksFrom {i k : Nat} {bs : List UInt8} :
    k ∈ breaksFrom i bs ↔ ∃ pos, bs[pos]? = some 10 ∧ k = i + pos + 1 := by
  induction bs generalizing i with
  | nil => simp [breaksFrom]
  | cons b bs ih =>
    have hcons : (∃ pos, (b :: bs)[pos]? = some 10 ∧ k = i + pos + 1) ↔
        (b = 10 ∧ k = i + 1) ∨ ∃ pos, bs[pos]? = some 10 ∧ k = i + 1 + pos + 1 := by
      constructor
      · rintro ⟨pos, hpos, rfl⟩
        cases pos with
        | zero => exact .inl ⟨by simpa using hpos, rfl⟩
        | succ pos => exact .inr ⟨pos, by simpa using hpos, by omega⟩
      · rintro (⟨rfl, rfl⟩ | ⟨pos, hpos, rfl⟩)
        · exact ⟨0, by simp, rfl⟩
        · exact ⟨pos + 1, by simpa using hpos, by omega⟩
    rw [hcons, breaksFrom, ← ih]
    by_cases hb : b = 10 <;> simp [hb]

theorem lt_of_mem_breaksFrom {i k : Nat} {bs : List UInt8} (h : k ∈ breaksFrom i bs) : i < k := by
  obtain ⟨pos, -, rfl⟩ := mem_breaksFrom.1 h
  omega

theorem breaksFrom_increasing (i : Nat) (bs : List UInt8) :
    (breaksFrom i bs).Pairwise (· < ·) := by
  induction bs generalizing i with
  | nil => simp [breaksFrom]
  | cons b bs ih =>
    rw [breaksFrom]
    split
    · rw [List.pairwise_cons]
      exact ⟨fun k hk => lt_of_mem_breaksFrom hk, ih (i + 1)⟩
    · exact ih (i + 1)

namespace LineSearch

variable {bytes : Array UInt8} {s s' : LineSearch}

/-- The starts that are still to be found. -/
def ahead (bytes : Array UInt8) (s : LineSearch) : List Nat :=
  match s.feed with
  | some pos => (pos + 1) :: breaksFrom (pos + 1) (bytes.toList.drop (pos + 1))
  | none => []

/-- A search from an offset on has all breaks from there on ahead. -/
theorem ahead_nextFeed? (bytes : Array UInt8) (starts : Array Nat) (i : Nat) :
    ahead bytes ⟨starts, nextFeed? bytes i⟩ = breaksFrom i (bytes.toList.drop i) := by
  fun_induction nextFeed? bytes i with
  | case1 i hi hfeed =>
    have hi' : i < bytes.toList.length := hi
    rw [List.drop_eq_getElem_cons hi', breaksFrom, Array.getElem_toList, if_pos hfeed, ahead]
  | case2 i hi hfeed ih =>
    have hi' : i < bytes.toList.length := hi
    rw [List.drop_eq_getElem_cons hi', breaksFrom, Array.getElem_toList, if_neg hfeed, ih]
  | case3 i hi =>
    have hi' : bytes.toList.length ≤ i := by simpa using hi
    rw [List.drop_eq_nil_of_le hi', breaksFrom, ahead]

def Reaches (bytes : Array UInt8) : LineSearch → LineSearch → Prop :=
  Relation.ReflTransGen fun s s' => s.step? bytes = some s'

/-- A step moves the first start that is ahead to the end of the table. -/
theorem starts_append_ahead_of_step? (h : s.step? bytes = some s') :
    s'.starts.toList ++ s'.ahead bytes = s.starts.toList ++ s.ahead bytes := by
  obtain ⟨pos, hpos, rfl⟩ := Option.map_eq_some_iff.1 h
  have hahead : s.ahead bytes =
      (pos + 1) :: breaksFrom (pos + 1) (bytes.toList.drop (pos + 1)) := by
    rw [ahead, hpos]
  rw [hahead, ahead_nextFeed?]
  simp

theorem Reaches.starts_append_ahead (h : Reaches bytes s s') :
    s'.starts.toList ++ s'.ahead bytes = s.starts.toList ++ s.ahead bytes := by
  induction h with
  | refl => rfl
  | tail _ hstep ih => rw [starts_append_ahead_of_step? hstep, ih]

theorem ahead_of_step?_eq_none (h : s.step? bytes = none) : s.ahead bytes = [] := by
  have hfeed : s.feed = none := Option.map_eq_none_iff.1 h
  rw [ahead, hfeed]

/-- The search comes to an end, with the table that it gives. -/
theorem exists_reaches_run (bytes : Array UInt8) (s : LineSearch) :
    ∃ s', Reaches bytes s s' ∧ s'.step? bytes = none ∧ s'.starts = s.run bytes := by
  fun_induction run bytes s with
  | case1 s s' hstep ih =>
    obtain ⟨last, hreach, hlast⟩ := ih
    exact ⟨last, Relation.ReflTransGen.head hstep hreach, hlast⟩
  | case2 s hstep => exact ⟨s, Relation.ReflTransGen.refl, hstep, rfl⟩

theorem toList_run (bytes : Array UInt8) (s : LineSearch) :
    (s.run bytes).toList = s.starts.toList ++ s.ahead bytes := by
  obtain ⟨last, hreach, hlast, hstarts⟩ := exists_reaches_run bytes s
  have h := hreach.starts_append_ahead
  rw [ahead_of_step?_eq_none hlast, List.append_nil] at h
  rw [← hstarts, h]

end LineSearch

theorem toList_lineStarts (bytes : Array UInt8) :
    (ofBytes bytes).lineStarts.toList = 0 :: breaksFrom 0 bytes.toList := by
  rw [ofBytes, LineSearch.toList_run, LineSearch.initial, LineSearch.ahead_nextFeed?]
  rfl

/-- The starts of the lines are in increasing order. -/
theorem lineStarts_increasing (bytes : Array UInt8) :
    (ofBytes bytes).lineStarts.toList.Pairwise (· < ·) := by
  rw [toList_lineStarts, List.pairwise_cons]
  exact ⟨fun k hk => lt_of_mem_breaksFrom hk, breaksFrom_increasing 0 bytes.toList⟩

theorem size_lineStarts_pos (bytes : Array UInt8) : 0 < (ofBytes bytes).lineStarts.size := by
  rw [← Array.length_toList, toList_lineStarts]
  simp

theorem getD_lineStarts_zero (bytes : Array UInt8) : (ofBytes bytes).lineStarts.getD 0 0 = 0 := by
  have h : (ofBytes bytes).lineStarts.toList[0]? = some 0 := by simp [toList_lineStarts]
  simp [Array.getD_eq_getD_getElem?, ← Array.getElem?_toList, h]

theorem getD_le_getD {table : Array Nat} (sorted : table.toList.Pairwise (· < ·)) {i j : Nat}
    (hij : i ≤ j) (hj : j < table.size) : table.getD i 0 ≤ table.getD j 0 := by
  rcases Nat.eq_or_lt_of_le hij with rfl | hlt
  · exact Nat.le_refl _
  · have hi : i < table.size := by omega
    have h := List.pairwise_iff_getElem.1 sorted i j hi hj hlt
    simp only [Array.getElem_toList] at h
    simp only [Array.getD, hi, hj, dite_true]
    exact Nat.le_of_lt h

/-- A place in a table with entries that do not exceed `x` before it, and such that do
after it. -/
structure Divides (table : Array Nat) (x : Int) (k : Nat) : Prop where
  le_size : k ≤ table.size
  before : ∀ i < k, (table.getD i 0 : Int) ≤ x
  after : ∀ i, k ≤ i → i < table.size → x < (table.getD i 0 : Nat)

/-- The search keeps the place between its bounds. -/
theorem divides_upperBound {table : Array Nat} (sorted : table.toList.Pairwise (· < ·)) (x : Int)
    (lo hi : Nat) (hle : lo ≤ hi) (hhi : hi ≤ table.size)
    (before : ∀ i < lo, (table.getD i 0 : Int) ≤ x)
    (after : ∀ i, hi ≤ i → i < table.size → x < (table.getD i 0 : Nat)) :
    Divides table x (upperBound table x lo hi) := by
  fun_induction upperBound table x lo hi with
  | case1 lo hi hlt mid hx ih =>
    have hmid : mid = (lo + hi) / 2 := rfl
    refine ih (by omega) (by omega) before ?_
    intro i hi hsize
    have := getD_le_getD sorted hi hsize
    omega
  | case2 lo hi hlt mid hx ih =>
    have hmid : mid = (lo + hi) / 2 := rfl
    refine ih (by omega) hhi ?_ after
    intro i hi
    have := getD_le_getD sorted (show i ≤ mid by omega) (by omega)
    omega
  | case3 lo hi hlt =>
    have : lo = hi := by omega
    exact ⟨by omega, before, by simpa [this] using after⟩

theorem divides_lineOf (bytes : Array UInt8) (offset : Int) :
    Divides (ofBytes bytes).lineStarts offset ((ofBytes bytes).lineOf offset) :=
  divides_upperBound (lineStarts_increasing bytes) offset 0 _ (Nat.zero_le _) (Nat.le_refl _)
    (by simp) (fun _ _ _ => by omega)

/-- Later offsets are on later lines. -/
theorem lineOf_mono (bytes : Array UInt8) {x y : Int} (h : x ≤ y) :
    (ofBytes bytes).lineOf x ≤ (ofBytes bytes).lineOf y := by
  have hx := divides_lineOf bytes x
  have hy := divides_lineOf bytes y
  by_contra hlt
  have hafter := hy.after _ (Nat.le_refl _) (by have := hx.le_size; omega)
  have hbefore := hx.before ((ofBytes bytes).lineOf y) (by omega)
  omega

/-- Every offset is on a line. -/
theorem one_le_lineOf (bytes : Array UInt8) (offset : Nat) :
    1 ≤ (ofBytes bytes).lineOf offset := by
  have h := divides_lineOf bytes offset
  by_contra hlt
  have hafter := h.after 0 (by omega) (size_lineStarts_pos bytes)
  have hfirst := getD_lineStarts_zero bytes
  omega

/-- Offsets before the first byte are on no line. -/
theorem lineOf_of_neg (bytes : Array UInt8) {offset : Int} (h : offset < 0) :
    (ofBytes bytes).lineOf offset = 0 := by
  by_contra hne
  have hbefore := (divides_lineOf bytes offset).before 0 (by omega)
  have hfirst := getD_lineStarts_zero bytes
  omega

/-- The place of a division is the number of entries that do not exceed `x`. -/
theorem Divides.eq_countP {table : Array Nat} {x k : Nat} (h : Divides table x k) :
    k = table.toList.countP (· ≤ x) := by
  have hget : ∀ i, (hi : i < table.toList.length) → table.getD i 0 = table.toList[i] := by
    intro i hi
    have hi' : i < table.size := hi
    simp [Array.getD, hi']
  have hbefore : (table.toList.take k).countP (· ≤ x) = k := by
    have hle := h.le_size
    rw [List.countP_eq_length.2]
    · simpa using Nat.min_eq_left hle
    · intro entry hentry
      obtain ⟨i, hi, rfl⟩ := List.mem_take_iff_getElem.1 hentry
      have := h.before i (by omega)
      rw [hget i (by omega)] at this
      simpa using this
  have hafter : (table.toList.drop k).countP (· ≤ x) = 0 := by
    rw [List.countP_eq_zero]
    intro entry hentry
    obtain ⟨i, hi, rfl⟩ := List.mem_drop_iff_getElem.1 hentry
    have := h.after (k + i) (by omega) (by simpa [Nat.add_comm] using hi)
    rw [hget (k + i) (by omega)] at this
    simpa using this
  rw [← List.take_append_drop k table.toList, List.countP_append, hbefore, hafter, Nat.add_zero]

/-- The breaks up to an offset are the line feeds before it. -/
theorem countP_breaksFrom (i k : Nat) (bs : List UInt8) :
    (breaksFrom i bs).countP (· ≤ i + k) = (bs.take k).count 10 := by
  induction bs generalizing i k with
  | nil => simp [breaksFrom]
  | cons b bs ih =>
    cases k with
    | zero =>
      rw [List.take_zero, List.count_nil, List.countP_eq_zero]
      intro entry hentry
      have := lt_of_mem_breaksFrom hentry
      simpa using this
    | succ k =>
      have hrest := ih (i + 1) k
      rw [show i + 1 + k = i + (k + 1) by omega] at hrest
      rw [breaksFrom, List.take_succ_cons, List.count_cons]
      split
      · rw [List.countP_cons_of_pos (by simp), hrest]
      · rw [hrest, Nat.add_zero]

/-- The line of an offset is one more than the number of line feeds before it. -/
theorem lineOf_eq_count (bytes : Array UInt8) (offset : Nat) :
    (ofBytes bytes).lineOf offset = (bytes.toList.take offset).count 10 + 1 := by
  have hbreaks := countP_breaksFrom 0 offset bytes.toList
  rw [Nat.zero_add] at hbreaks
  rw [(divides_lineOf bytes offset).eq_countP, toList_lineStarts,
    List.countP_cons_of_pos (by simp), hbreaks]

/-- The line of any offset, those before the first byte included. -/
theorem lineOf_eq_ite (bytes : Array UInt8) (offset : Int) : (ofBytes bytes).lineOf offset =
    if offset < 0 then 0 else 1 + (bytes.toList.take offset.toNat).count 10 := by
  split
  case isTrue hneg => exact lineOf_of_neg bytes hneg
  case isFalse hneg =>
    obtain ⟨k, rfl⟩ := Int.eq_ofNat_of_zero_le (show 0 ≤ offset by omega)
    rw [lineOf_eq_count, Int.toNat_natCast, Nat.add_comm]

example : [-1, 0, 3, 4, 5, 11].map (ofText "a();\nb();\n\nc();\n").lineOf =
    [0, 1, 1, 1, 2, 4] := by
  decide +kernel

/-- One byte further is at most one line further. -/
theorem lineOf_add_one_le (bytes : Array UInt8) (offset : Int) :
    (ofBytes bytes).lineOf (offset + 1) ≤ (ofBytes bytes).lineOf offset + 1 := by
  rw [lineOf_eq_ite, lineOf_eq_ite]
  rcases Int.lt_trichotomy offset (-1) with hlt | rfl | hgt
  · rw [if_pos (by omega)]
    exact Nat.zero_le _
  · simp
  · have hnext : (offset + 1).toNat = offset.toNat + 1 := by omega
    have hbyte : (bytes.toList[offset.toNat]?.toList).count 10 ≤ 1 :=
      List.count_le_length.trans Option.length_toList_le
    rw [if_neg (by omega), if_neg (by omega), hnext, List.take_add_one, List.count_append]
    omega

/-- Offsets behind the end are on the line of the end. -/
theorem lineOf_size_add (bytes : Array UInt8) (k : Nat) :
    (ofBytes bytes).lineOf (bytes.size + k) = (ofBytes bytes).lineOf bytes.size := by
  have hall : ∀ offset : Int, bytes.size ≤ offset →
      (ofBytes bytes).lineOf offset = 1 + bytes.toList.count 10 := by
    intro offset hle
    have hlength : bytes.toList.length ≤ offset.toNat := by
      rw [Array.length_toList]
      omega
    rw [lineOf_eq_ite, if_neg (by omega), List.take_of_length_le hlength]
  rw [hall _ (by omega), hall _ (by omega)]

/-- For all bytes: the search for line feeds, one behind the other, comes to an end, and its
table is the increasing list of zero and the offsets behind the line feeds. The line of an
offset is zero before the first byte, and otherwise one more than the number of line feeds
before the offset. So later offsets are on later lines, one byte further is at most one line
further, and behind the end the line stays the same. -/
theorem lines_exact (bytes : Array UInt8) :
    (∃ s, LineSearch.Reaches bytes (.initial bytes) s ∧ s.step? bytes = none ∧
      s.starts = (ofBytes bytes).lineStarts) ∧
    (ofBytes bytes).lineStarts.toList.Pairwise (· < ·) ∧
    (∀ k, k ∈ (ofBytes bytes).lineStarts ↔ k = 0 ∨ ∃ pos, bytes[pos]? = some 10 ∧ k = pos + 1) ∧
    (∀ offset : Int, (ofBytes bytes).lineOf offset =
      if offset < 0 then 0 else 1 + (bytes.toList.take offset.toNat).count 10) ∧
    (∀ x y : Int, x ≤ y → (ofBytes bytes).lineOf x ≤ (ofBytes bytes).lineOf y) ∧
    (∀ offset, (ofBytes bytes).lineOf (offset + 1) ≤ (ofBytes bytes).lineOf offset + 1) ∧
    ∀ k : Nat, (ofBytes bytes).lineOf (bytes.size + k) = (ofBytes bytes).lineOf bytes.size := by
  refine ⟨LineSearch.exists_reaches_run bytes (.initial bytes), lineStarts_increasing bytes, ?_,
    lineOf_eq_ite bytes, fun _ _ hle => lineOf_mono bytes hle, lineOf_add_one_le bytes,
    lineOf_size_add bytes⟩
  intro k
  rw [← Array.mem_toList_iff, toList_lineStarts, List.mem_cons, mem_breaksFrom]
  simp

namespace Sample

/-- A line feed at the start, and two in a row at the end. -/
def feeds : Array UInt8 := #[10, 97, 10, 10]

/-- The offset behind the last line feed is on a line of its own, which nothing follows. -/
theorem lines_exact_feeds : (-1 : Int) ≤ 3 ∧
    (ofBytes feeds).lineOf (-1) ≤ (ofBytes feeds).lineOf 3 ∧
    [-1, 0, 1, 2, 3, 4].map (ofBytes feeds).lineOf = [0, 1, 2, 2, 3, 4] ∧
    (ofBytes feeds).lineOf (4 + 5) = (ofBytes feeds).lineOf 4 ∧
    4 ∈ (ofBytes feeds).lineStarts := by
  obtain ⟨-, -, hmem, hlines, hmono, -, hend⟩ := lines_exact feeds
  have hle : (-1 : Int) ≤ 3 := by decide
  have hall : [-1, 0, 1, 2, 3, 4].map (ofBytes feeds).lineOf = [0, 1, 2, 2, 3, 4] := by
    simp only [List.map, hlines]
    decide
  have hlast : feeds[3]? = some 10 := rfl
  exact ⟨hle, hmono _ _ hle, hall, hend 5, (hmem 4).2 (.inr ⟨3, hlast, rfl⟩)⟩

end Sample

end FunctionInventory.SourceText
