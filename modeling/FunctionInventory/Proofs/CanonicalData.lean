import FunctionInventory.Proofs.CacheEntries
import FunctionInventory.Proofs.FilteredCalls
import Mathlib.Data.List.Lex
import Mathlib.Data.List.Sort

/-!
# The data of records is canonical

In each spelling of the keys a record has exactly one form as data. Equal records have equal
data, in whatever order their calls were found, and the data leads back to the record. So
records that are put into the cache come back as they were. All this goes as deep as records may
be nested: beyond, they are neither turned into data nor put.
-/
namespace FunctionInventory

/-- Texts are ordered as lists of code points. -/
theorem Text.lt_iff_lt {a b : Text} : Text.lt a b = true ↔ a < b := by
  induction a generalizing b with
  | nil => cases b <;> simp [Text.lt]
  | cons x a ih =>
    cases b with
    | nil => simp [Text.lt]
    | cons y b =>
      rw [List.cons_lt_cons_iff, ← ih, Text.lt]
      rcases lt_trichotomy x y with hxy | rfl | hyx
      · simp [Fin.lt_def.1 hxy, hxy]
      · simp
      · simp [Fin.lt_def.1 hyx, hyx.not_gt, hyx.ne', Nat.not_lt_of_gt (Fin.lt_def.1 hyx)]

namespace NameSet

theorem pairwise_lt (s : NameSet) : s.names.Pairwise (· < ·) :=
  s.increasing.imp Text.lt_iff_lt.1

/-- A set is told from others by its members. -/
theorem eq_of_mem_iff {s s' : NameSet} (h : ∀ t, t ∈ s.names ↔ t ∈ s'.names) : s = s' := by
  have hnames : s.names = s'.names := s.pairwise_lt.eq_of_mem_iff s'.pairwise_lt h
  cases s
  cases s'
  cases hnames
  rfl

theorem ofList_eq_ofList_iff {ts us : List Text} :
    ofList ts = ofList us ↔ ∀ t, t ∈ ts ↔ t ∈ us := by
  constructor
  · intro h t
    rw [← mem_ofList, h, mem_ofList]
  · intro h
    apply eq_of_mem_iff
    intro t
    rw [mem_ofList, mem_ofList, h t]

end NameSet

/-- A value, and the values nested in it in the way of records: in the list under the key
for nested records. -/
inductive NestedData (style : KeyStyle) : Value → Value → Prop
  | self (v : Value) : NestedData style v v
  | inner {v w u : Value} {items : List Value}
      (hitems : v.get? (RecordField.innerFunctions.key style) = some (.list items))
      (hw : w ∈ items) (hu : NestedData style w u) : NestedData style v u

namespace FunctionRecord

variable (style : KeyStyle)

theorem get?_innerFunctions_toValue (r : FunctionRecord) :
    (r.toValue style).get? (RecordField.innerFunctions.key style) =
      some (.list (r.inner.map (toValue style))) := by
  rw [← toValues_eq_map]
  cases style <;> cases r <;> rfl

theorem get?_calledFunctions_toValue (r : FunctionRecord) :
    (r.toValue style).get? (RecordField.calledFunctions.key style) =
      some (.list (r.calls.names.map .text)) := by
  cases style <;> cases r <;> rfl

theorem toValue_injective : Function.Injective (toValue style) := by
  intro r s h
  have hr := check_toValue style r le_rfl
  rw [h] at hr
  exact eq_of_check_toValue style s hr

variable {style}

theorem dump_eq_error {limit : Nat} {r : FunctionRecord} (h : limit < r.depth) :
    r.dump limit style = .error .data := by
  rw [dump, if_neg (Nat.not_le_of_gt h)]

/-- At every depth, what is nested in the data of a record is the data of a record. -/
theorem exists_toValue_of_nestedData {v w : Value} (h : NestedData style v w) {r : FunctionRecord}
    (hv : v = r.toValue style) : ∃ s : FunctionRecord, w = s.toValue style := by
  induction h generalizing r with
  | self v => exact ⟨r, hv⟩
  | inner hitems hw _ ih =>
    rw [hv, get?_innerFunctions_toValue] at hitems
    cases hitems
    obtain ⟨s, -, hs⟩ := List.mem_map.1 hw
    exact ih hs.symm

end FunctionRecord

/-- What was put is found, whatever keys the map had before. -/
theorem Value.find?_put {key : Value} (hkey : Value.sameKey key key) (v : Value)
    (members : List (Value × Value)) : Value.find? key (Value.put key v members) = some v := by
  induction members with
  | nil => simp [Value.put, Value.find?, hkey]
  | cons m members ih =>
    obtain ⟨k, w⟩ := m
    rw [Value.put]
    by_cases hsame : Value.sameKey k key = true
    · simp [Value.find?, hsame]
    · rw [if_neg hsame]
      simpa [Value.find?, hsame] using ih

namespace Cache

variable {limits : Limits} {c c' : Cache} {content language : Text} {records : List FunctionRecord}

/-- Records that are not nested too deep are stored, unless the name of the language has no
bytes. -/
theorem put_eq_error (hdepth : FunctionRecord.depthAll records ≤ limits.data)
    (h : Text.hasSurrogate language) (c : Cache) (content : Text) :
    c.put limits content language records = .error (.encoding .surrogate) := by
  rw [put, FunctionRecord.dumpAll_eq_ok .camelCase hdepth, contentKey, Text.encodeStrict?, if_pos h]
  rfl

theorem exists_put_eq_ok (hdepth : FunctionRecord.depthAll records ≤ limits.data)
    (h : ¬ Text.hasSurrogate language) (c : Cache) (content : Text) :
    ∃ c', c.put limits content language records = .ok c' := by
  have hkey : contentKey content language = .ok (keyOf content language) :=
    contentKey_eq_ok_iff.2 ⟨eq_false_of_ne_true h, rfl⟩
  exact ⟨_, put_eq_ok_iff.2 ⟨hdepth, _, hkey, rfl⟩⟩

theorem found_of_put (h : c.put limits content language records = .ok c') :
    c'.found limits content language = .ok (some records) := by
  obtain ⟨hdepth, key, hkey, rfl⟩ := put_eq_ok_iff.1 h
  have hsame : Value.sameKey (.text key) (.text key) := by simp [MessagePack.sameKey_text]
  have hrecords := recordsOf?_toValues_eq_some_iff.2 ⟨rfl, hdepth⟩
  rw [found, hkey, Except.map, Value.find?_put hsame, Option.bind_some, hrecords]

end Cache

namespace FunctionRecord.Sample

end FunctionRecord.Sample

end FunctionInventory
