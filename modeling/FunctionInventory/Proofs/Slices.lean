import FunctionInventory.Proofs.Utf8

/-!
# Exact slices

A text is cut out of the bytes of a source exactly if both offsets stand between code points,
and then it is what stands between them. An offset inside a code point never gives a text, with
whatever bytes go on before and after it.
-/
namespace FunctionInventory

namespace Text

/-- A code point of the text starts at the offset, or the text ends there. -/
def IsBoundary (t : Text) (i : Nat) : Prop :=
  ∃ before after, t = before ++ after ∧ before.encode.length = i

/-- The part is made of the code points of the text between the two offsets. -/
def IsBetween (t : Text) (i j : Nat) (part : Text) : Prop :=
  ∃ before after, t = before ++ part ++ after ∧ before.encode.length = i ∧
    (before ++ part).encode.length = j

variable {t part : Text} {i j k : Nat}

theorem encode_eq_nil_iff : encode t = [] ↔ t = [] := by
  constructor
  · intro h
    exact encode_injective (h.trans encode_nil.symm)
  · rintro rfl
    simp

theorem isBoundary_iff_exists_take :
    t.IsBoundary i ↔ ∃ k ∈ List.range (t.length + 1), (encode (t.take k)).length = i := by
  constructor
  · rintro ⟨before, after, rfl, rfl⟩
    refine ⟨before.length, ?_, by simp⟩
    simp only [List.mem_range, List.length_append]
    omega
  · rintro ⟨k, -, hk⟩
    exact ⟨t.take k, t.drop k, by simp, hk⟩

instance : Decidable (t.IsBoundary i) := decidable_of_iff _ isBoundary_iff_exists_take.symm

theorem IsBetween.left (h : t.IsBetween i j part) : t.IsBoundary i := by
  obtain ⟨before, after, ht, hi, -⟩ := h
  exact ⟨before, part ++ after, by simp [ht], hi⟩

theorem IsBetween.right (h : t.IsBetween i j part) : t.IsBoundary j := by
  obtain ⟨before, after, ht, -, hj⟩ := h
  exact ⟨before ++ part, after, ht, hj⟩

/-- Of two starts of a text, the one with fewer bytes is the start of the other. -/
theorem isPrefix_of_length_le {u v rest rest' : Text} (h : u ++ rest = v ++ rest')
    (hle : u.encode.length ≤ v.encode.length) : u <+: v := by
  rcases List.append_eq_append_iff.1 h with ⟨w, rfl, -⟩ | ⟨w, rfl, -⟩
  · exact ⟨w, rfl⟩
  · have hw : (encode w).length = 0 := by
      simp only [encode_append, List.length_append] at hle
      omega
    have hnil : w = [] := encode_eq_nil_iff.1 (List.length_eq_zero_iff.1 hw)
    simp [hnil]

/-- Between any two boundaries in order there is a part of the text. -/
theorem IsBoundary.exists_isBetween (hi : t.IsBoundary i) (hj : t.IsBoundary j) (hle : i ≤ j) :
    ∃ part, t.IsBetween i j part := by
  obtain ⟨u, rest, ht, hu⟩ := hi
  obtain ⟨v, rest', ht', hv⟩ := hj
  have hle' : u.encode.length ≤ v.encode.length := by omega
  obtain ⟨part, rfl⟩ := isPrefix_of_length_le (ht.symm.trans ht') hle'
  exact ⟨part, u, rest', ht', hu, hv⟩

/-- Parts that follow each other make up one part. -/
theorem IsBetween.append {first second : Text} (h : t.IsBetween i j first)
    (h' : t.IsBetween j k second) : t.IsBetween i k (first ++ second) := by
  obtain ⟨u, rest, ht, hu, hj⟩ := h
  obtain ⟨v, rest', ht', hv, hk⟩ := h'
  have hstart : u ++ first ++ rest = v ++ (second ++ rest') := by simp [← ht, ht']
  have hfirst : u ++ first <+: v := isPrefix_of_length_le hstart (by omega)
  have hv' : v <+: u ++ first := isPrefix_of_length_le hstart.symm (by omega)
  have heq : u ++ first = v := hfirst.eq_of_length_le hv'.length_le
  refine ⟨u, rest', ?_, hu, ?_⟩
  · rw [ht', ← heq]
    simp
  · rw [← List.append_assoc, heq, hk]

end Text

namespace SourceText

open Text

variable {t part : Text} {i j k : Nat}

theorem toList_extract_ofText (t : Text) (i j : Nat) :
    ((ofText t).bytes.extract i j).toList = (t.encode.drop i).take (j - i) := by
  simp [ofText, ofBytes, List.extract_eq_take_drop]

theorem slice_of_not_lt (src : SourceText) (h : j ≤ i) : src.slice i j = .ok [] := by
  have hempty : src.bytes.extract i j = #[] := Array.extract_empty_of_stop_le_start h
  rw [slice_eq_ok_iff, hempty]
  exact decode?_encode []

theorem sliceStrict_eq_ok_iff {src : SourceText} :
    src.sliceStrict i j = .ok part ↔ src.slice i j = .ok part ∧ part.hasSurrogate = false := by
  rw [slice_eq_ok_iff, sliceStrict, decodeStrict?]
  cases decode? (src.bytes.extract i j).toList with
  | none => simp
  | some u => by_cases hu : u.hasSurrogate <;> grind

/-- Between boundaries, a slice gives the code points that stand there. -/
theorem slice_of_isBetween (h : t.IsBetween i j part) : (ofText t).slice i j = .ok part := by
  obtain ⟨before, after, rfl, rfl, rfl⟩ := h
  have hbytes : ((encode (before ++ part ++ after)).drop before.encode.length).take
      ((before ++ part).encode.length - before.encode.length) = encode part := by
    simp [List.append_assoc]
  rw [slice_eq_ok_iff, toList_extract_ofText, hbytes]
  exact decode?_encode part

theorem exists_slice (hi : t.IsBoundary i) (hj : t.IsBoundary j) :
    ∃ part, (ofText t).slice i j = .ok part := by
  by_cases hle : i ≤ j
  · obtain ⟨part, hpart⟩ := hi.exists_isBetween hj hle
    exact ⟨part, slice_of_isBetween hpart⟩
  · exact ⟨[], slice_of_not_lt _ (by omega)⟩

/-- What a slice gives stands between boundaries: its first byte continues no code point, so
that the bytes before it are those of a text, and so are those behind it. -/
theorem isBetween_of_slice (hij : i < j) (hj : j ≤ t.encode.length)
    (h : (ofText t).slice i j = .ok part) : t.IsBetween i j part := by
  rw [slice_eq_ok_iff, toList_extract_ofText, decode?_eq_some_iff] at h
  have hlength : part.encode.length = j - i := by
    rw [← h, List.length_take, List.length_drop]
    omega
  have hne : part ≠ [] := by
    intro hnil
    simp only [hnil, encode_nil, List.length_nil] at hlength
    omega
  have hparts : encode t = t.encode.take i ++ encode part ++ t.encode.drop j := by
    have hdrop : t.encode.drop j = (t.encode.drop i).drop (j - i) := by
      rw [List.drop_drop]
      congr 1
      omega
    rw [hdrop, ← h, List.append_assoc, List.take_append_drop, List.take_append_drop]
  obtain ⟨before, after, ht, hbefore, -⟩ := exists_part_of_encode_eq hparts hne
  have hi : before.encode.length = i := by
    rw [hbefore, List.length_take]
    omega
  refine ⟨before, after, ht, hi, ?_⟩
  rw [encode_append, List.length_append]
  omega

/-- For all texts, lone surrogates included: a slice of the bytes gives a text exactly if both
offsets are boundaries, and then the code points between them; otherwise it fails. All bytes
give the text itself, and slices that follow each other give what the slice of both gives. -/
theorem slice_exact (t : Text) :
    (∀ i j, i < j → j ≤ t.encode.length →
      (∀ part, (ofText t).slice i j = .ok part ↔ t.IsBetween i j part) ∧
      ((∃ part, (ofText t).slice i j = .ok part) ↔ t.IsBoundary i ∧ t.IsBoundary j) ∧
      ((ofText t).slice i j = .error .malformed ↔ ¬ (t.IsBoundary i ∧ t.IsBoundary j))) ∧
    (ofText t).slice 0 t.encode.length = .ok t ∧
    ∀ i j k, i ≤ j → j ≤ k → t.IsBoundary i → t.IsBoundary j → t.IsBoundary k →
      ∃ first second, (ofText t).slice i j = .ok first ∧ (ofText t).slice j k = .ok second ∧
        (ofText t).slice i k = .ok (first ++ second) := by
  refine ⟨?_, slice_of_isBetween ⟨[], [], by simp⟩, ?_⟩
  · intro i j hij hj
    have hbetween : ∀ part, (ofText t).slice i j = .ok part ↔ t.IsBetween i j part :=
      fun part => ⟨isBetween_of_slice hij hj, slice_of_isBetween⟩
    have hboth : (∃ part, (ofText t).slice i j = .ok part) ↔ t.IsBoundary i ∧ t.IsBoundary j := by
      constructor
      · rintro ⟨part, hpart⟩
        have h := (hbetween part).1 hpart
        exact ⟨h.left, h.right⟩
      · rintro ⟨hi, hj⟩
        exact exists_slice hi hj
    refine ⟨hbetween, hboth, ?_⟩
    rw [← hboth]
    cases (ofText t).slice i j with
    | ok part => simp
    | error e => simp
  · intro i j k hij hjk hi hj hk
    obtain ⟨first, hfirst⟩ := hi.exists_isBetween hj hij
    obtain ⟨second, hsecond⟩ := hj.exists_isBetween hk hjk
    exact ⟨first, second, slice_of_isBetween hfirst, slice_of_isBetween hsecond,
      slice_of_isBetween (hfirst.append hsecond)⟩

namespace Sample

/-- The two halves of a surrogate pair. -/
def halves : Text := [⟨0xd83d, by decide⟩, ⟨0xde00, by decide⟩]

/-- Code points of one to four bytes, and then the halves. -/
def mixed : Text := ("Aé€😀" : Text) ++ halves

/-- The halves of the pair are cut out as they are, and a cut inside the second code point fails,
wherever it ends. -/
theorem slice_exact_mixed : mixed.encode.length = 16 ∧
    (ofText mixed).slice 10 16 = .ok halves ∧
    (ofText mixed).slice 2 10 = .error .malformed := by
  have hlength : mixed.encode.length = 16 := by decide
  have hpair : mixed.IsBetween 10 16 halves :=
    ⟨"Aé€😀", [], by simp [mixed], by decide, by decide⟩
  have hinside : ¬ (mixed.IsBoundary 2 ∧ mixed.IsBoundary 10) := by decide
  obtain ⟨hexact, -⟩ := (slice_exact mixed).1 10 16 (by decide) (by omega)
  obtain ⟨-, -, hfails⟩ := (slice_exact mixed).1 2 10 (by decide) (by omega)
  exact ⟨hlength, (hexact _).2 hpair, hfails.2 hinside⟩

end Sample

end SourceText

end FunctionInventory
