import FunctionInventory.Path
import FunctionInventory.Proofs.CanonicalData
import Mathlib.Data.List.TakeWhile

/-!
# Paths as texts

A path is written as a text and read back from it without loss, as long as its components are
such as a text has between its slashes. Paths are in the order of their lists of components.
-/
namespace FunctionInventory

namespace Path

/-- Lists of components are in lexicographic order. -/
theorem lt_go_iff_lt {ps qs : List Text} : lt.go ps qs = true ↔ ps < qs := by
  induction ps generalizing qs with
  | nil => cases qs <;> simp [lt.go]
  | cons a ps ih =>
    cases qs with
    | nil => simp [lt.go]
    | cons b qs =>
      rw [List.cons_lt_cons_iff, ← ih, lt.go]
      simp only [Text.lt_iff_lt]
      rcases lt_trichotomy a b with hab | rfl | hba
      · simp [hab]
      · simp
      · simp [hba, hba.not_gt, hba.ne']

theorem lt_iff_lt {p q : Path} : p.lt q = true ↔ p.parts < q.parts := lt_go_iff_lt

theorem not_lt_iff_le {p q : Path} : (!q.lt p) = true ↔ p.parts ≤ q.parts := by
  rw [Bool.not_eq_true', ← Bool.not_eq_true, lt_iff_lt, not_lt]

/-- Paths that strictly increase are told by which they are. -/
theorem eq_of_increasing {ps qs : List Path} (hps : ps.Pairwise fun p q => p.parts < q.parts)
    (hqs : qs.Pairwise fun p q => p.parts < q.parts) (h : ∀ p, p ∈ ps ↔ p ∈ qs) : ps = qs := by
  have hirrefl : Std.Irrefl fun p q : Path => p.parts < q.parts := ⟨fun p => lt_irrefl p.parts⟩
  have hantisymm : Std.Antisymm fun p q : Path => p.parts < q.parts :=
    ⟨fun p q hlt hgt => absurd hgt hlt.not_gt⟩
  exact hps.eq_of_mem_iff hqs h

@[simp] theorem parts_below (p : Path) (names : List Text) :
    (p.below names).parts = p.parts ++ names := rfl

/-- The suffix is that of the last name, wherever the path starts. -/
theorem suffix_below (p : Path) {names : List Text} (h : names ≠ []) :
    (p.below names).suffix = suffix ⟨[], names⟩ := by
  have hname : (p.below names).name = name ⟨[], names⟩ := by
    obtain ⟨before, last, rfl⟩ := (List.eq_nil_or_concat' names).resolve_left h
    simp [name, ← List.append_assoc]
  unfold suffix
  rw [hname]

theorem suffix_of_not_mem {p : Path} (h : dot ∉ p.name) : p.suffix = [] := by
  have hall : p.name.reverse.takeWhile (· != dot) = p.name.reverse := by
    rw [List.takeWhile_eq_self_iff]
    intro c hc
    exact bne_iff_ne.2 fun heq => h (List.mem_reverse.1 (heq ▸ hc))
  unfold suffix
  simp [hall]

/-- The last dot of a name counts if there is something on both sides of it. -/
theorem suffix_of_name {p : Path} {stem ending : Text} (h : p.name = stem ++ dot :: ending)
    (hdot : dot ∉ ending) :
    p.suffix = if stem = [] ∨ ending = [] then [] else dot :: ending := by
  have htake : p.name.reverse.takeWhile (· != dot) = ending.reverse := by
    rw [h, List.reverse_append, List.reverse_cons, List.append_assoc, List.takeWhile_append_of_pos]
    · simp
    · intro c hc
      exact bne_iff_ne.2 fun heq => hdot (List.mem_reverse.1 (heq ▸ hc))
  have hlength : p.name.length = stem.length + 1 + ending.length := by
    rw [h, List.length_append, List.length_cons]
    omega
  unfold suffix
  simp only [htake, hlength, List.length_reverse, List.reverse_reverse]
  by_cases hstem : stem = []
  · simp [hstem, Nat.add_comm]
  · have hpos := List.length_pos_iff.2 hstem
    have hlonger : ¬ stem.length + 1 + ending.length ≤ ending.length + 1 := by omega
    by_cases hending : ending = []
    · simp [hending]
    · simp [hstem, hending, hlonger]

theorem suffix_eq_cons_iff {p : Path} {ending : Text} : p.suffix = dot :: ending ↔
    ending ≠ [] ∧ dot ∉ ending ∧ ∃ stem, stem ≠ [] ∧ p.name = stem ++ dot :: ending := by
  constructor
  · intro h
    have hmem : dot ∈ p.name := by
      by_contra hmem
      simp [suffix_of_not_mem hmem] at h
    obtain ⟨behind, before, hname, hdot⟩ := List.eq_append_cons_of_mem (List.mem_reverse.2 hmem)
    rw [List.reverse_eq_iff, List.reverse_append, List.reverse_cons, List.append_assoc] at hname
    rw [suffix_of_name hname (by simpa using hdot)] at h
    split at h
    · cases h
    · next hboth =>
      obtain ⟨hbefore, hbehind⟩ := not_or.1 hboth
      obtain rfl := (List.cons.inj h).2
      exact ⟨hbehind, by simpa using hdot, before.reverse, hbefore, hname⟩
  · rintro ⟨hending, hdot, stem, hstem, hname⟩
    rw [suffix_of_name hname hdot, if_neg (not_or.2 ⟨hstem, hending⟩)]

theorem suffix_eq_nil_or_cons (p : Path) : p.suffix = [] ∨ ∃ ending, p.suffix = dot :: ending := by
  dsimp only [suffix]
  split
  · exact .inl rfl
  · exact .inr ⟨_, rfl⟩

theorem splitSlash_ne_nil (t : Text) : splitSlash t ≠ [] := by
  cases t with
  | nil => simp [splitSlash]
  | cons c t =>
    unfold splitSlash
    split
    · split <;> simp
    · simp

theorem splitSlash_slash (t : Text) : splitSlash (slash :: t) = [] :: splitSlash t := by
  obtain ⟨part, rest, h⟩ := List.exists_cons_of_ne_nil (splitSlash_ne_nil t)
  simp [splitSlash, h]

theorem splitSlash_cons {c : CodePoint} (hc : c ≠ slash) {t part : Text} {rest : List Text}
    (h : splitSlash t = part :: rest) : splitSlash (c :: t) = (c :: part) :: rest := by
  simp [splitSlash, h, hc]

theorem slash_not_mem {t part : Text} (h : part ∈ splitSlash t) : slash ∉ part := by
  induction t generalizing part with
  | nil =>
    obtain rfl : part = [] := by simpa [splitSlash] using h
    exact List.not_mem_nil
  | cons c t ih =>
    obtain ⟨first, rest, hsplit⟩ := List.exists_cons_of_ne_nil (splitSlash_ne_nil t)
    by_cases hc : c = slash
    · rw [hc, splitSlash_slash, List.mem_cons] at h
      rcases h with rfl | h
      · exact List.not_mem_nil
      · exact ih h
    · rw [splitSlash_cons hc hsplit, List.mem_cons] at h
      rcases h with rfl | h
      · have hfirst : slash ∉ first := ih (by simp [hsplit])
        simp [hfirst, Ne.symm hc]
      · exact ih (by simp [hsplit, h])

theorem splitSlash_of_not_mem {part : Text} (h : slash ∉ part) : splitSlash part = [part] := by
  induction part with
  | nil => rfl
  | cons c part ih =>
    obtain ⟨hc, hpart⟩ := List.ne_and_not_mem_of_not_mem_cons h
    exact splitSlash_cons (Ne.symm hc) (ih hpart)

/-- A component ends at the first slash behind it. -/
theorem splitSlash_append {part : Text} (h : slash ∉ part) (t : Text) :
    splitSlash (part ++ slash :: t) = part :: splitSlash t := by
  induction part with
  | nil => exact splitSlash_slash t
  | cons c part ih =>
    obtain ⟨hc, hpart⟩ := List.ne_and_not_mem_of_not_mem_cons h
    exact splitSlash_cons (Ne.symm hc) (ih hpart)

/-- Components come back from the text that has them between slashes. -/
theorem splitSlash_flatten {parts : List Text} (hne : parts ≠ [])
    (h : ∀ part ∈ parts, slash ∉ part) :
    splitSlash (parts.intersperse [slash]).flatten = parts := by
  induction parts with
  | nil => exact absurd rfl hne
  | cons part rest ih =>
    have hpart := h part List.mem_cons_self
    cases rest with
    | nil => simpa using splitSlash_of_not_mem hpart
    | cons next rest =>
      have hrest := ih (by simp) fun part hmem => h part (List.mem_cons_of_mem _ hmem)
      simp only [List.intersperse_cons_cons, List.flatten_cons, List.singleton_append]
      rw [splitSlash_append hpart, hrest]

/-- The texts that are components of paths. -/
@[mk_iff] structure IsPart (part : Text) : Prop where
  nonempty : part ≠ []
  slash_not_mem : slash ∉ part
  ne_dot : part ≠ [dot]

instance : DecidablePred IsPart := fun part => decidable_of_iff' _ (isPart_iff part)

/-- A path as it is read from some text. -/
structure Sound (p : Path) : Prop where
  root : p.root = [] ∨ p.root = [slash] ∨ p.root = [slash, slash]
  parts : ∀ part ∈ p.parts, IsPart part

theorem rootOf_cases (t : Text) :
    rootOf t = [] ∨ rootOf t = [slash] ∨ rootOf t = [slash, slash] := by
  unfold rootOf
  split
  · exact .inl rfl
  · exact .inr (.inr rfl)
  · exact .inr (.inl rfl)

theorem sound_ofText (t : Text) : (ofText t).Sound where
  root := rootOf_cases t
  parts := by
    intro part hpart
    obtain ⟨hmem, hkept⟩ := List.mem_filter.1 hpart
    simp only [Bool.and_eq_true, Bool.not_eq_true', List.isEmpty_eq_false_iff, bne_iff_ne] at hkept
    exact ⟨hkept.1, slash_not_mem hmem, hkept.2⟩

theorem Sound.below {p : Path} (h : p.Sound) {names : List Text}
    (hnames : ∀ name ∈ names, IsPart name) : (p.below names).Sound where
  root := h.root
  parts := by
    intro part hpart
    rcases List.mem_append.1 hpart with hpart | hpart
    · exact h.parts part hpart
    · exact hnames part hpart

theorem parts_ofText_slash (t : Text) : (ofText (slash :: t)).parts = (ofText t).parts := by
  simp [ofText, splitSlash_slash]

theorem parts_ofText_flatten {parts : List Text} (h : ∀ part ∈ parts, IsPart part) :
    (ofText (parts.intersperse [slash]).flatten).parts = parts := by
  by_cases hne : parts = []
  · subst hne
    rfl
  · have hsplit := splitSlash_flatten hne fun part hpart => (h part hpart).slash_not_mem
    rw [ofText, hsplit]
    refine List.filter_eq_self.2 fun part hpart => ?_
    simp [(h part hpart).nonempty, (h part hpart).ne_dot]

/-- No slash comes first where components are joined. -/
theorem takeWhile_flatten {parts : List Text} (h : ∀ part ∈ parts, IsPart part) :
    (parts.intersperse [slash]).flatten.takeWhile (· == slash) = [] := by
  cases parts with
  | nil => rfl
  | cons part rest =>
    have hpart := h part List.mem_cons_self
    obtain ⟨c, part, rfl⟩ := List.exists_cons_of_ne_nil hpart.nonempty
    have hc : c ≠ slash := fun hc => hpart.slash_not_mem (by simp [hc])
    cases rest <;> simp [hc]

theorem ofText_append_flatten {root : Text} {parts : List Text} (h : Sound ⟨root, parts⟩) :
    ofText (root ++ (parts.intersperse [slash]).flatten) = ⟨root, parts⟩ := by
  have hparts := parts_ofText_flatten h.parts
  have hfirst := takeWhile_flatten h.parts
  have hroot : rootOf (root ++ (parts.intersperse [slash]).flatten) = root := by
    obtain rfl | rfl | rfl : root = [] ∨ root = [slash] ∨ root = [slash, slash] := h.root <;>
      simp [rootOf, hfirst]
  have hkept : (ofText (root ++ (parts.intersperse [slash]).flatten)).parts = parts := by
    obtain rfl | rfl | rfl : root = [] ∨ root = [slash] ∨ root = [slash, slash] := h.root <;>
      simpa [parts_ofText_slash] using hparts
  exact congrArg₂ Path.mk hroot hkept

/-- A path is read back from its text. -/
theorem ofText_toText {p : Path} (h : p.Sound) : ofText p.toText = p := by
  unfold toText
  split
  · next hempty =>
    obtain ⟨root, parts⟩ := p
    simp only [Bool.and_eq_true, List.isEmpty_iff] at hempty
    obtain ⟨rfl, rfl⟩ := hempty
    decide
  · exact ofText_append_flatten h

end Path

end FunctionInventory
