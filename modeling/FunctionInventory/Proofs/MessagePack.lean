import FunctionInventory.Proofs.MessagePackFormat
import FunctionInventory.Proofs.Outcomes
import Mathlib.Tactic.Ring

/-!
# Reading what was written

Plain values are written in one of their forms. So reading undoes writing, and the bytes of
a plain value that miss their end are not read at all.
-/
namespace FunctionInventory

namespace MessagePack

theorem length_bigEndian (width n : Nat) : (bigEndian width n).length = width := by
  induction width with
  | zero => rfl
  | succ width ih => simp [bigEndian, ih]

theorem foldl_bigEndian (width n acc : Nat) :
    (bigEndian width n).foldl (fun m b => m * 256 + b.toNat) acc =
      acc * 256 ^ width + n % 256 ^ width := by
  induction width generalizing acc with
  | zero => simp [bigEndian, Nat.mod_one]
  | succ width ih =>
    have hbyte : (UInt8.ofNat (n >>> (8 * width))).toNat = n / 256 ^ width % 256 := by
      rw [UInt8.toNat_ofNat', Nat.shiftRight_eq_div_pow, Nat.pow_mul]
    rw [bigEndian, List.foldl_cons, ih, hbyte, Nat.pow_succ, Nat.mod_mul]
    ring

theorem natOf_bigEndian {width n : Nat} (h : n < 256 ^ width) : natOf (bigEndian width n) = n := by
  rw [natOf, foldl_bigEndian, Nat.zero_mul, Nat.zero_add, Nat.mod_eq_of_lt h]

/-- Negative numbers are written in two's complement. -/
theorem intOf_bigEndian {width : Nat} {i : Int} (hi : i < 0) (h : -(256 ^ width : Nat) ≤ 2 * i) :
    intOf (bigEndian width (i + (256 ^ width : Nat)).toNat) = i := by
  have hsize : 1 <<< (8 * width) = 256 ^ width := by
    rw [Nat.shiftLeft_eq, Nat.one_mul, Nat.pow_mul]
  have hnat : natOf (bigEndian width (i + (256 ^ width : Nat)).toNat) =
      (i + (256 ^ width : Nat)).toNat := natOf_bigEndian (by omega)
  simp only [intOf, hnat, length_bigEndian, hsize]
  split <;> omega

theorem encodes_natural {mark : UInt8} {width : Nat} {i : Int} (hmark : (mark, width) ∈ naturalMarks)
    (h₀ : 0 ≤ i) (h : i.toNat < 256 ^ width) :
    Encodes (.int i) (mark :: bigEndian width i.toNat) := by
  have hdigits : (mark, (bigEndian width i.toNat).length) ∈ naturalMarks := by
    rwa [length_bigEndian]
  have hform := Encodes.natural hdigits
  rwa [natOf_bigEndian h, Int.toNat_of_nonneg h₀] at hform

theorem encodes_integer {mark : UInt8} {width : Nat} {i : Int} (hmark : (mark, width) ∈ integerMarks)
    (hi : i < 0) (h : -(256 ^ width : Nat) ≤ 2 * i) :
    Encodes (.int i) (mark :: bigEndian width (i + (256 ^ width : Nat)).toNat) := by
  have hdigits :
      (mark, (bigEndian width (i + (256 ^ width : Nat)).toNat).length) ∈ integerMarks := by
    rwa [length_bigEndian]
  have hform := Encodes.integer hdigits
  rwa [intOf_bigEndian hi h] at hform

theorem encodes_writeInt {i : Int} {bytes : List UInt8} (h : writeInt i = .ok bytes) :
    Encodes (.int i) bytes := by
  unfold writeInt at h
  dsimp only at h
  split_ifs at h with h₀ h₁ h₂ h₃ h₄ h₅ h₆ h₇ h₈ h₉ h₁₀ <;> cases h
  · have hb : (UInt8.ofNat i.toNat).toNat = i.toNat := toNat_ofNat_of_lt (by omega)
    have hform := Encodes.small (b := UInt8.ofNat i.toNat) (by omega)
    rwa [hb, Int.toNat_of_nonneg h₀] at hform
  · exact encodes_natural (by decide) h₀ (by omega)
  · exact encodes_natural (by decide) h₀ (by omega)
  · exact encodes_natural (by decide) h₀ (by omega)
  · exact encodes_natural (by decide) h₀ (by omega)
  · have hb : (UInt8.ofNat (i + 256).toNat).toNat = (i + 256).toNat :=
      toNat_ofNat_of_lt (by omega)
    have hform := Encodes.negative (b := UInt8.ofNat (i + 256).toNat) (by omega)
    rwa [hb, Int.toNat_of_nonneg (by omega), Int.add_sub_cancel] at hform
  · exact encodes_integer (by decide) (by omega) (by omega)
  · exact encodes_integer (by decide) (by omega) (by omega)
  · exact encodes_integer (by decide) (by omega) (by omega)
  · exact encodes_integer (by decide) (by omega) (by omega)

theorem head_marksFrom {s : Sizes} {first count n : Nat} (hs : s.short = marksFrom first count)
    (h : n < count) : Head s n [UInt8.ofNat (first + n)] := by
  refine .short ?_
  rw [hs]
  exact List.mem_map.2 ⟨n, List.mem_range.2 h, rfl⟩

theorem head_bigEndian {s : Sizes} {mark : UInt8} {width n : Nat} (hmark : (mark, width) ∈ s.long)
    (h : n < 256 ^ width) : Head s n (mark :: bigEndian width n) := by
  have hdigits : (mark, (bigEndian width n).length) ∈ s.long := by rwa [length_bigEndian]
  have hhead := Head.long hdigits
  rwa [natOf_bigEndian h] at hhead

theorem head_textHead {n : Nat} {head : List UInt8} (h : textHead n = .ok head) :
    Head textSizes n head := by
  unfold textHead at h
  split_ifs at h with h₁ h₂ h₃ h₄ <;> cases h
  · exact head_marksFrom rfl h₁
  · exact head_bigEndian (by decide) (by omega)
  · exact head_bigEndian (by decide) (by omega)
  · exact head_bigEndian (by decide) (by omega)

/-- The head of a container has one of the sizes of its kind, if its marks do. -/
theorem head_containerHead {s : Sizes} {short medium long : UInt8}
    (hshort : s.short = marksFrom short.toNat 16) (hmedium : (medium, 2) ∈ s.long)
    (hlong : (long, 4) ∈ s.long) {n : Nat} {head : List UInt8}
    (h : containerHead short medium long n = .ok head) : Head s n head := by
  unfold containerHead at h
  split_ifs at h with h₁ h₂ h₃ <;> cases h
  · have hmark : short + UInt8.ofNat n = UInt8.ofNat (short.toNat + n) := by
      rw [UInt8.ofNat_add, UInt8.ofNat_toNat]
    rw [hmark]
    exact head_marksFrom hshort h₁
  · exact head_bigEndian hmedium (by omega)
  · exact head_bigEndian hlong (by omega)

theorem head_listHead {n : Nat} {head : List UInt8} (h : listHead n = .ok head) :
    Head listSizes n head := head_containerHead rfl (by decide) (by decide) h

theorem head_mapHead {n : Nat} {head : List UInt8} (h : mapHead n = .ok head) :
    Head mapSizes n head := head_containerHead rfl (by decide) (by decide) h

/-- A value made of whole numbers, texts, lists, and maps whose keys are different texts. -/
inductive Plain : Value → Prop
  | int (i : Int) : Plain (.int i)
  | text (t : Text) : Plain (.text t)
  | list {vs : List Value} (items : ∀ v ∈ vs, Plain v) : Plain (.list vs)
  | map {ms : List (Value × Value)} (keys : ∀ m ∈ ms, ∃ t, m.1 = .text t)
      (distinct : ms.Pairwise fun m n => m.1 ≠ n.1) (values : ∀ m ∈ ms, Plain m.2) : Plain (.map ms)

/-- The value is written in one of its forms, if it is written at all. -/
def WritesForm (v : Value) : Prop :=
  ∀ levels bytes, write levels v = .ok bytes → Encodes v bytes

theorem exists_eq_succ_of_write {levels : Nat} {v : Value} {bytes : List UInt8}
    (h : write levels v = .ok bytes) : ∃ n, levels = n + 1 := by
  cases levels with
  | zero => simp [write] at h
  | succ n => exact ⟨n, rfl⟩

theorem exists_parts_of_writeItems {vs : List Value} (h : ∀ v ∈ vs, WritesForm v)
    {levels : Nat} {bytes : List UInt8} (hw : writeItems levels vs = .ok bytes) :
    ∃ parts : List (Value × List UInt8), parts.map (·.1) = vs ∧
      (∀ p ∈ parts, Encodes p.1 p.2) ∧ bytes = parts.flatMap (·.2) := by
  induction vs generalizing bytes with
  | nil =>
    rw [writeItems] at hw
    cases hw
    exact ⟨[], rfl, by simp, rfl⟩
  | cons v vs ih =>
    rw [writeItems] at hw
    obtain ⟨first, hfirst, hw⟩ := bind_eq_ok_iff.1 hw
    obtain ⟨others, hothers, hw⟩ := bind_eq_ok_iff.1 hw
    cases hw
    obtain ⟨hv, hvs⟩ := List.forall_mem_cons.1 h
    obtain ⟨parts, rfl, hparts, rfl⟩ := ih hvs hothers
    exact ⟨(v, first) :: parts, rfl, List.forall_mem_cons.2 ⟨hv _ first hfirst, hparts⟩, rfl⟩

theorem exists_parts_of_writeMembers {ms : List (Value × Value)}
    (h : ∀ m ∈ ms, WritesForm m.1 ∧ WritesForm m.2) {levels : Nat} {bytes : List UInt8}
    (hw : writeMembers levels ms = .ok bytes) :
    ∃ parts : List ((Value × List UInt8) × (Value × List UInt8)),
      parts.map (fun p => (p.1.1, p.2.1)) = ms ∧ (∀ p ∈ parts, Encodes p.1.1 p.1.2) ∧
      (∀ p ∈ parts, Encodes p.2.1 p.2.2) ∧ bytes = parts.flatMap fun p => p.1.2 ++ p.2.2 := by
  induction ms generalizing bytes with
  | nil =>
    rw [writeMembers] at hw
    cases hw
    exact ⟨[], rfl, by simp, by simp, rfl⟩
  | cons m ms ih =>
    obtain ⟨k, v⟩ := m
    rw [writeMembers] at hw
    obtain ⟨key, hkey, hw⟩ := bind_eq_ok_iff.1 hw
    obtain ⟨val, hval, hw⟩ := bind_eq_ok_iff.1 hw
    obtain ⟨others, hothers, hw⟩ := bind_eq_ok_iff.1 hw
    cases hw
    obtain ⟨⟨hk, hv⟩, hms⟩ := List.forall_mem_cons.1 h
    obtain ⟨parts, rfl, hkeys, hvalues, rfl⟩ := ih hms hothers
    refine ⟨((k, key), (v, val)) :: parts, rfl, ?_, ?_, rfl⟩
    · exact List.forall_mem_cons.2 ⟨hk _ key hkey, hkeys⟩
    · exact List.forall_mem_cons.2 ⟨hv _ val hval, hvalues⟩

theorem sameKey_text (t u : Text) : Value.sameKey (.text t) (.text u) = (t == u) := by
  simp [Value.sameKey]

theorem put_of_new {ms : List (Value × Value)} {k : Value} (v : Value)
    (h : ∀ m ∈ ms, Value.sameKey m.1 k = false) : Value.put k v ms = ms ++ [(k, v)] := by
  induction ms with
  | nil => rfl
  | cons m ms ih =>
    obtain ⟨hm, hms⟩ := List.forall_mem_cons.1 h
    simp [Value.put, hm, ih hms]

/-- Members with different texts as keys make up the map. -/
theorem foldl_put_of_distinct {ms acc : List (Value × Value)}
    (keys : ∀ m ∈ acc ++ ms, ∃ t, m.1 = .text t)
    (distinct : (acc ++ ms).Pairwise fun m n => m.1 ≠ n.1) :
    ms.foldl (fun acc m => Value.put m.1 m.2 acc) acc = acc ++ ms := by
  induction ms generalizing acc with
  | nil => simp
  | cons m ms ih =>
    have hnew : ∀ n ∈ acc, Value.sameKey n.1 m.1 = false := by
      intro n hn
      obtain ⟨t, ht⟩ := keys n (List.mem_append_left _ hn)
      obtain ⟨u, hu⟩ := keys m (by simp)
      have hne := (List.pairwise_append.1 distinct).2.2 n hn m List.mem_cons_self
      rw [ht, hu] at hne ⊢
      simpa [sameKey_text] using hne
    have hsplit : acc ++ m :: ms = acc ++ [m] ++ ms := by simp
    rw [hsplit] at keys distinct ⊢
    rw [List.foldl_cons, put_of_new m.2 hnew]
    exact ih keys distinct

theorem writesForm_text (t : Text) : WritesForm (.text t) := by
  intro levels bytes hw
  obtain ⟨n, rfl⟩ := exists_eq_succ_of_write hw
  rw [write] at hw
  cases hencode : Text.encodeStrict? t with
  | none => simp [hencode] at hw
  | some body =>
    rw [hencode] at hw
    obtain ⟨head, hhead, hw⟩ := bind_eq_ok_iff.1 hw
    cases hw
    exact .text (head_textHead hhead) hencode

theorem Plain.writesForm {v : Value} (h : Plain v) : WritesForm v := by
  induction h with
  | int i =>
    intro levels bytes hw
    obtain ⟨n, rfl⟩ := exists_eq_succ_of_write hw
    rw [write] at hw
    exact encodes_writeInt hw
  | text t => exact writesForm_text t
  | list items ih =>
    intro levels bytes hw
    obtain ⟨n, rfl⟩ := exists_eq_succ_of_write hw
    rw [write] at hw
    obtain ⟨head, hhead, hw⟩ := bind_eq_ok_iff.1 hw
    obtain ⟨others, hothers, hw⟩ := bind_eq_ok_iff.1 hw
    cases hw
    obtain ⟨parts, rfl, hparts, rfl⟩ := exists_parts_of_writeItems ih hothers
    rw [List.length_map] at hhead
    exact .list (head_listHead hhead) hparts
  | @map ms keys distinct values ih =>
    intro levels bytes hw
    obtain ⟨n, rfl⟩ := exists_eq_succ_of_write hw
    rw [write] at hw
    obtain ⟨head, hhead, hw⟩ := bind_eq_ok_iff.1 hw
    obtain ⟨others, hothers, hw⟩ := bind_eq_ok_iff.1 hw
    cases hw
    have hforms : ∀ m ∈ ms, WritesForm m.1 ∧ WritesForm m.2 := by
      intro m hm
      obtain ⟨t, ht⟩ := keys m hm
      exact ⟨ht ▸ writesForm_text t, ih m hm⟩
    have hmembers : ms.foldl (fun acc m => Value.put m.1 m.2 acc) [] = [] ++ ms :=
      foldl_put_of_distinct keys distinct
    obtain ⟨parts, rfl, hkeys, hvalues, rfl⟩ := exists_parts_of_writeMembers hforms hothers
    rw [List.length_map] at hhead
    rw [List.foldl_map, List.nil_append] at hmembers
    rw [← hmembers]
    refine .map (head_mapHead hhead) (fun p hp => ?_) hkeys hvalues
    obtain ⟨t, ht⟩ := keys _ (List.mem_map.2 ⟨p, hp, rfl⟩)
    rw [show p.1.1 = .text t from ht]
    rfl

/-- Reading undoes writing. -/
theorem Plain.read?_write {levels : Nat} {v : Value} {bytes : List UInt8} (h : Plain v)
    (hw : write levels v = .ok bytes) : read? bytes = some v :=
  read?_eq_some_iff.2 (h.writesForm levels bytes hw)

/-- Without its end, what was written is not read. -/
theorem Plain.read?_take {levels : Nat} {v : Value} {bytes : List UInt8} (h : Plain v)
    (hw : write levels v = .ok bytes) {n : Nat} (hn : n < bytes.length) :
    read? (bytes.take n) = none := by
  cases hread : read? (bytes.take n) with
  | none => rfl
  | some w =>
    have hwhole := h.writesForm levels bytes hw
    rw [← List.take_append_drop n bytes] at hwhole
    have hend := (read?_eq_some_iff.1 hread).eq_nil_of_append hwhole
    exact absurd (List.drop_eq_nil_iff.1 hend) (by omega)

end MessagePack

end FunctionInventory
