import FunctionInventory.Proofs.CacheFiles
import FunctionInventory.Proofs.CacheTransparency

/-!
# What stored entries stand for

An entry from a file stands for records if it is a list of them. A list with an item that is no
record stands for nothing, and neither do most other values; but an empty text, empty bytes and
an empty map are gone through like an empty list, so that they stand for no records at all. A
batch analyzes exactly the units whose entries stand for nothing.
-/
namespace FunctionInventory

namespace MessagePack

/-- The keys of every map in the value are texts or bytes. -/
inductive Keyed : Value → Prop
  | atom {v : Value} (hlist : ∀ vs, v ≠ .list vs) (hmap : ∀ ms, v ≠ .map ms) : Keyed v
  | list {vs : List Value} (items : ∀ v ∈ vs, Keyed v) : Keyed (.list vs)
  | map {ms : List (Value × Value)} (keys : ∀ m ∈ ms, isFileKey m.1 = true)
      (values : ∀ m ∈ ms, Keyed m.2) : Keyed (.map ms)

theorem keyed_of_isFileKey {v : Value} (h : isFileKey v = true) : Keyed v := by
  cases v with
  | text | bytes => exact .atom (by simp) (by simp)
  | _ => cases h

section

variable {K V : Value → Prop}

theorem forall_mem_put {k v : Value} {ms : List (Value × Value)} (h : ∀ m ∈ ms, K m.1 ∧ V m.2)
    (hk : K k) (hv : V v) : ∀ m ∈ Value.put k v ms, K m.1 ∧ V m.2 := by
  induction ms with
  | nil => simpa [Value.put] using ⟨hk, hv⟩
  | cons m ms ih =>
    obtain ⟨hm, hms⟩ := List.forall_mem_cons.1 h
    rw [Value.put]
    split
    · exact List.forall_mem_cons.2 ⟨⟨hm.1, hv⟩, hms⟩
    · exact List.forall_mem_cons.2 ⟨hm, ih hms⟩

theorem forall_mem_foldl_put {pairs : List (Value × Value)} (h : ∀ m ∈ pairs, K m.1 ∧ V m.2) :
    ∀ m ∈ pairs.foldl (fun ms m => Value.put m.1 m.2 ms) [], K m.1 ∧ V m.2 := by
  induction pairs using List.reverseRecOn with
  | nil => simp
  | append_singleton pairs p ih =>
    rw [List.forall_mem_append, List.forall_mem_singleton] at h
    rw [List.foldl_append, List.foldl_cons, List.foldl_nil]
    exact forall_mem_put (ih h.1) h.2.1 h.2.2

end

theorem keyed_extensionValue? {code : Int} {data : List UInt8} {v : Value}
    (h : extensionValue? code data = some v) : Keyed v := by
  have hmoment (seconds : Int) (nanoseconds : Nat) (h : (if nanoseconds < 1000000000 then
      some (Value.moment seconds nanoseconds) else none) = some v) : Keyed v := by
    split at h
    · cases h
      exact .atom (by simp) (by simp)
    · cases h
  unfold extensionValue? at h
  split at h
  · cases h
    exact .atom (by simp) (by simp)
  · split at h
    · cases h
    · dsimp only at h
      split at h
      · exact hmoment _ _ h
      · exact hmoment _ _ h
      · exact hmoment _ _ h
      · cases h

theorem Encodes.keyed {v : Value} {bytes : List UInt8} (h : Encodes v bytes) : Keyed v := by
  induction h with
  | extension _ hdata => exact keyed_extensionValue? hdata
  | list _ _ ih =>
    refine .list fun w hw => ?_
    obtain ⟨p, hp, rfl⟩ := List.mem_map.1 hw
    exact ih p hp
  | @map head parts _ keys _ _ _ ih =>
    have hmembers : ∀ m ∈ parts.map fun p => (p.1.1, p.2.1), isFileKey m.1 = true ∧ Keyed m.2 := by
      intro m hm
      obtain ⟨p, hp, rfl⟩ := List.mem_map.1 hm
      exact ⟨keys p hp, ih p hp⟩
    have hall := forall_mem_foldl_put (K := fun k => isFileKey k = true) (V := Keyed) hmembers
    rw [List.foldl_map] at hall
    exact .map (fun m hm => (hall m hm).1) fun m hm => (hall m hm).2
  | _ => exact .atom (by simp) (by simp)

/-- What one meets in going through a value from a file is such a value. -/
theorem Keyed.of_mem_elements? {v : Value} (h : Keyed v) {items : List Value}
    (hitems : v.elements? = some items) : ∀ w ∈ items, Keyed w := by
  cases h with
  | list hlist =>
    cases hitems
    exact hlist
  | map keys =>
    cases hitems
    intro w hw
    obtain ⟨m, hm, rfl⟩ := List.mem_map.1 hw
    exact keyed_of_isFileKey (keys m hm)
  | atom hlist hmap =>
    intro w hw
    cases v with
    | list vs => exact absurd rfl (hlist vs)
    | map ms => exact absurd rfl (hmap ms)
    | text t =>
      cases hitems
      obtain ⟨c, -, rfl⟩ := List.mem_map.1 hw
      exact .atom (by simp) (by simp)
    | bytes b =>
      cases hitems
      obtain ⟨x, -, rfl⟩ := List.mem_map.1 hw
      exact .atom (by simp) (by simp)
    | extension code data =>
      cases hitems
      rcases List.mem_cons.1 hw with rfl | hw
      · exact .atom (by simp) (by simp)
      · rw [List.mem_singleton.1 hw]
        exact .atom (by simp) (by simp)
    | null | bool | int | real | moment => cases hitems

theorem Keyed.of_find? {ms : List (Value × Value)} (h : ∀ m ∈ ms, Keyed m.2) {key v : Value}
    (hv : Value.find? key ms = some v) : Keyed v := by
  obtain ⟨m, hm, rfl⟩ := Option.map_eq_some_iff.1 hv
  exact h m (List.mem_of_find?_eq_some hm)

end MessagePack

namespace Cache

open Logged MessagePack

theorem Converts.keyed {v : Value} {entries : List (Value × Value)} (h : Converts v entries)
    (hv : Keyed v) : ∀ m ∈ entries, Keyed m.2 := by
  cases h with
  | map ms =>
    cases hv with
    | atom _ hmap => exact absurd rfl (hmap entries)
    | map _ values => exact values
  | @pairs v parts pairs other hparts hpairs =>
    have hmembers : ∀ m ∈ pairs, True ∧ Keyed m.2 := by
      have hitems := hv.of_mem_elements? hparts
      clear hparts
      induction hpairs with
      | nil => simp
      | cons hpair _ ih =>
        obtain ⟨hitem, hitems⟩ := List.forall_mem_cons.1 hitems
        refine List.forall_mem_cons.2 ⟨⟨trivial, ?_⟩, ih hitems⟩
        exact hitem.of_mem_elements? hpair.1 _ (by simp)
    exact fun m hm => (forall_mem_foldl_put (K := fun _ => True) hmembers m hm).2

theorem IsCurrent.keyed {bytes : List UInt8} {entries : List (Value × Value)}
    (h : IsCurrent bytes entries) : ∀ m ∈ entries, Keyed m.2 := by
  obtain ⟨ms, v, hform, -, hv, hconverts⟩ := h
  refine hconverts.keyed ?_
  cases hform.keyed with
  | atom _ hmap => exact absurd rfl (hmap ms)
  | map _ values => exact Keyed.of_find? values hv

/-- The entry stands for the records: it is a list of their data, or something empty that is
gone through like a list. -/
inductive StandsFor (limits : Limits) : Value → List FunctionRecord → Prop
  | list {vs : List Value} {records : List FunctionRecord}
      (h : List.Forall₂ (fun v r => FunctionRecord.check limits.data v = .ok r) vs records) :
      StandsFor limits (.list vs) records
  | emptyText : StandsFor limits (.text []) []
  | emptyBytes : StandsFor limits (.bytes []) []
  | emptyMap : StandsFor limits (.map []) []

variable {limits : Limits}

/-- Records are made of maps only. -/
theorem exists_map_of_check {levels : Nat} {v : Value} {r : FunctionRecord}
    (h : FunctionRecord.check levels v = .ok r) : ∃ ms, v = .map ms := by
  cases levels with
  | zero =>
    rw [FunctionRecord.check] at h
    cases h
  | succ levels =>
    cases v with
    | map ms => exact ⟨ms, rfl⟩
    | _ =>
      rw [FunctionRecord.check] at h
      · cases h
      · simp

theorem eq_nil_of_checked {items : List Value} {records : List FunctionRecord}
    (h : List.Forall₂ (fun v r => FunctionRecord.check limits.data v = .ok r) items records)
    (other : ∀ v ∈ items, ∀ ms, v ≠ .map ms) : items = [] ∧ records = [] := by
  cases h with
  | nil => exact ⟨rfl, rfl⟩
  | @cons v r _ _ hr _ =>
    obtain ⟨ms, rfl⟩ := exists_map_of_check hr
    exact absurd rfl ((List.forall_mem_cons.1 other).1 ms)

theorem recordsOf?_eq_some_iff_standsFor {v : Value} (hv : Keyed v)
    {records : List FunctionRecord} :
    recordsOf? limits v = some records ↔ StandsFor limits v records := by
  rw [recordsOf?_eq_some_iff]
  constructor
  · rintro ⟨items, hitems, hchecked⟩
    cases v with
    | list vs =>
      cases hitems
      exact .list hchecked
    | text t =>
      cases hitems
      obtain ⟨ht, rfl⟩ := eq_nil_of_checked hchecked (by simp)
      rw [List.map_eq_nil_iff.1 ht]
      exact .emptyText
    | bytes b =>
      cases hitems
      obtain ⟨hb, rfl⟩ := eq_nil_of_checked hchecked (by simp)
      rw [List.map_eq_nil_iff.1 hb]
      exact .emptyBytes
    | map ms =>
      cases hitems
      have hkeys : ∀ k ∈ ms.map (·.1), ∀ ms', k ≠ .map ms' := by
        intro k hk ms' heq
        obtain ⟨m, hm, rfl⟩ := List.mem_map.1 hk
        cases hv with
        | atom _ hmap => exact hmap ms rfl
        | map keys =>
          have hkey := keys m hm
          rw [heq] at hkey
          cases hkey
      obtain ⟨hms, rfl⟩ := eq_nil_of_checked hchecked hkeys
      rw [List.map_eq_nil_iff.1 hms]
      exact .emptyMap
    | extension code data =>
      cases hitems
      obtain ⟨hnil, -⟩ := eq_nil_of_checked hchecked (by simp)
      cases hnil
    | null | bool | int | real | moment => cases hitems
  · intro h
    cases h with
    | list h => exact ⟨_, rfl, h⟩
    | emptyText | emptyBytes | emptyMap => exact ⟨[], rfl, .nil⟩

/-- The entry of a content in a language stands for the records. -/
def Stores (limits : Limits) (c : Cache) (content language : Text)
    (records : List FunctionRecord) : Prop :=
  ∃ v, Value.find? (.text (keyOf content language)) c.entries = some v ∧
    StandsFor limits v records

/-- Looking up finds what the entry stands for. -/
theorem exists_found_eq_ok (limits : Limits) {c : Cache} (hc : ∀ m ∈ c.entries, Keyed m.2)
    (content : Text) {language : Text} (hlanguage : IsSupported language) :
    ∃ found, c.found limits content language = .ok found ∧
      ∀ records, found = some records ↔ c.Stores limits content language records := by
  rw [found, contentKey_eq hlanguage]
  refine ⟨_, rfl, fun records => ?_⟩
  rw [Option.bind_eq_some_iff]
  refine exists_congr fun v => and_congr_right fun hv => ?_
  exact recordsOf?_eq_some_iff_standsFor (Keyed.of_find? hc hv)

/-- The entries that a new cache loads are values from a file. -/
theorem keyed_of_loaded {directory : Path} {disk : FileSystem} {c : Cache}
    (h : Gives (load { directory } disk) (.ok c)) : ∀ m ∈ c.entries, Keyed m.2 := by
  have hloaded : loaded { directory } disk = .ok c :=
    (gives_load _ _).outcome.symm.trans h.outcome
  unfold loaded loadedUnder at hloaded
  split at hloaded
  · obtain ⟨bytes, -, hc⟩ := map_eq_ok_iff.1 hloaded
    cases hcontent : contentOf bytes with
    | current entries =>
      rw [hcontent] at hc
      obtain rfl := hc
      exact (contentOf_eq_current_iff.1 hcontent).keyed
    | outdated | damaged =>
      rw [hcontent] at hc
      obtain rfl := hc
      simp
  · cases hloaded
    simp

open Batch

/-- For every cache that was loaded from a file: looking up gives records if and only if the
entry stands for them, and otherwise nothing. In every batch, units whose entries stand for
records have these as their results, and all others are analyzed. It fails only where units are
analyzed in turn and such an analysis fails, or where what such an analysis gives is nested too
deep to be stored. -/
theorem found_iff_standsFor (directory : Path) (disk : FileSystem) (c : Cache)
    (h : Gives (load { directory } disk) (.ok c)) :
    (∀ limits content language, IsSupported language →
      ∃ found, Gives (c.get limits content language) (.ok found) ∧
        ∀ records, found = some records ↔ c.Stores limits content language records) ∧
    ∀ (parse : TreeParser) (machine : Machine) (settings : LogSettings) (o : Options)
      (units : List SourceUnit), (∀ u ∈ units, IsSupported (languageFor o u)) →
      ((¬ UsesPool machine o (some c) units ∧
          ∃ u ∈ units, UnitFails machine.limits (analysisOutcome parse) o (some c) u) ∧
        ∃ e, outcomeBy parse machine settings o (some c) (units.map SourceUnit.dump) =
          .error (.analysis e)) ∨
      ((∃ u ∈ units, UnitTooDeep machine.limits
          (worked machine (analysisOutcome parse) o (some c) units) o (some c) u) ∧
        ∃ left, outcomeBy parse machine settings o (some c) (units.map SourceUnit.dump) =
          .error (.unstored (.nesting .data) left)) ∨
      ∃ results cache',
        outcomeBy parse machine settings o (some c) (units.map SourceUnit.dump) =
          .ok (results, cache') ∧
        List.Forall₂ (fun u f =>
          (∀ records, c.Stores machine.limits u.content (languageFor o u) records →
            f = resultOf u records) ∧
          ((¬ ∃ records, c.Stores machine.limits u.content (languageFor o u) records) →
            f = entryOf u (worked machine (analysisOutcome parse) o (some c) units u.content
              (languageFor o u)))) units results := by
  have hkeyed := keyed_of_loaded h
  constructor
  · intro limits content language hlanguage
    obtain ⟨found, hfound, hstores⟩ := exists_found_eq_ok limits hkeyed content hlanguage
    exact ⟨found, hfound ▸ c.gives_get limits content language, hstores⟩
  · intro parse machine settings o units hlanguages
    have hfound : ∀ u ∈ units, ∃ records, cachedRecords machine.limits o (some c) u = .ok records ∧
        ∀ rs, records = some rs ↔ c.Stores machine.limits u.content (languageFor o u) rs :=
      fun u hu => exists_found_eq_ok machine.limits hkeyed u.content (hlanguages u hu)
    obtain ⟨jobs, hjobs⟩ := exists_jobs_iff.2 fun u hu => (hfound u hu).imp fun _ h => h.1
    have houtcome : outcomeBy parse machine settings o (some c) (units.map SourceUnit.dump) =
        ran machine (analysisOutcome parse) o (some c) units := by
      rw [outcomeBy_eq, checkUnits_dump]
      rfl
    have hends := runEnds_ran (analysisOutcome parse) hjobs
    rw [← houtcome] at hends
    generalize outcomeBy parse machine settings o (some c) (units.map SourceUnit.dump) = r at hends
    cases hends with
    | @fails e alone hfails => exact .inl ⟨⟨alone, hfails⟩, e, rfl⟩
    | @unstored left _ hdeep => exact .inr (.inl ⟨hdeep, left, rfl⟩)
    | returns =>
      refine .inr (.inr ⟨_, _, rfl, ?_⟩)
      rw [List.forall₂_map_right_iff, List.forall₂_same]
      intro u hu
      obtain ⟨records, hrecords, hstores⟩ := hfound u hu
      rw [resultFor, hrecords]
      constructor
      · intro rs hrs
        rw [(hstores rs).2 hrs]
      · intro hnone
        cases records with
        | none => rfl
        | some rs => exact absurd ⟨rs, (hstores rs).1 rfl⟩ hnone

namespace Sample

def source : Text := "function f() \x7b\x7d"

/-- An empty map is stored for the source. -/
def hollow : Cache := { directory, entries := [(.text (keyOf source "typescript"), .map [])] }

def hollowFile : List UInt8 := (hollow.encode default).toOption.getD []

def hollowDisk : FileSystem :=
  { tree := .directory [("cache", .directory [(fileName, .file hollowFile)])] }

theorem encode_hollow : hollow.encode default = .ok hollowFile := by
  have hwritten : (hollow.encode default).isOk = true := by decide +kernel
  obtain ⟨bytes, hbytes⟩ := exists_eq_ok_of_isOk hwritten
  rw [hollowFile, hbytes]
  rfl

theorem gives_load_hollow : Gives (load { directory } hollowDisk) (.ok hollow) := by
  have hplain : MessagePack.Plain (.map hollow.entries) := by
    refine .map (by simp [hollow]) (by simp [hollow]) ?_
    intro m hm
    rw [List.mem_singleton.1 hm]
    exact .map (by simp) .nil (by simp)
  have hread : hollowDisk.read (directory / fileName) = .ok hollowFile := by rfl
  have hload := loaded_of_read (c := { directory }) hread
  rw [contentOf_write hplain encode_hollow] at hload
  exact hload ▸ gives_load _ _

theorem find?_hollow :
    Value.find? (.text (keyOf source "typescript")) hollow.entries = some (.map []) := by
  simp [Value.find?, hollow, MessagePack.sameKey_text]

theorem stores_hollow : hollow.Stores default source "typescript" [] := ⟨_, find?_hollow, .emptyMap⟩

/-- An empty map in the place of a list is found as a list of no records. -/
theorem empty_map_is_found : ∃ c, Gives (load { directory } hollowDisk) (.ok c) ∧
    Value.find? (.text (keyOf source "typescript")) c.entries = some (.map []) ∧
    Gives (c.get default source "typescript") (.ok (some [])) := by
  have hlanguage := isSupported_name .typeScript
  obtain ⟨found, hfound, hstores⟩ :=
    exists_found_eq_ok default (keyed_of_loaded gives_load_hollow) source hlanguage
  obtain rfl : found = some [] := (hstores []).2 stores_hollow
  exact ⟨hollow, gives_load_hollow, find?_hollow, hfound ▸ hollow.gives_get _ _ _⟩

/-- The unit of the source. -/
def sourceUnit : SourceUnit := ⟨"a.ts", source⟩

theorem languageFor_sourceUnit : languageFor {} sourceUnit = "typescript" := by
  decide +kernel

theorem cachedRecords_sourceUnit :
    cachedRecords {} {} (some hollow) sourceUnit = .ok (some []) := by
  obtain ⟨found, hfound, hstores⟩ := exists_found_eq_ok {} (keyed_of_loaded gives_load_hollow)
    source (isSupported_name .typeScript)
  obtain rfl : found = some [] := (hstores []).2 stores_hollow
  rw [cachedRecords, languageFor_sourceUnit]
  exact hfound

open CacheState.Sample

theorem supported_units : ∀ u ∈ [sourceUnit, unit], IsSupported (languageFor {} u) := by
  intro u hu
  rcases List.mem_pair.1 hu with rfl | rfl
  · rw [languageFor_sourceUnit]
    exact isSupported_name .typeScript
  · rw [languageFor_unit]
    exact isSupported_name .javaScript

theorem not_stores_unit : ¬ ∃ rs, hollow.Stores {} unit.content (languageFor {} unit) rs := by
  have hne : keyOf source "typescript" ≠ keyOf unit.content "javascript" := by decide +kernel
  rintro ⟨rs, v, hv, -⟩
  rw [languageFor_unit] at hv
  simp [Value.find?, hollow, MessagePack.sameKey_text, hne] at hv

/-- A batch on this cache takes the stored source to have no functions, and analyzes the other
one. -/
theorem found_iff_standsFor_sample : Gives (load { directory } hollowDisk) (.ok hollow) ∧
    (∃ found, Gives (hollow.get {} source "typescript") (.ok found) ∧
      ∀ records, found = some records ↔ hollow.Stores {} source "typescript" records) ∧
    (∀ u ∈ [sourceUnit, unit], IsSupported (languageFor {} u)) ∧
    ∃ records cache', analysisOutcome parse unit.content "javascript" = .ok records ∧
      outcomeBy parse {} {} {} (some hollow) ([sourceUnit, unit].map SourceUnit.dump) =
        .ok ([resultOf sourceUnit [], resultOf unit records], cache') := by
  obtain ⟨records, hrecords, hdepth⟩ := exists_records
  have hanalyzed : worked {} (analysisOutcome parse) {} (some hollow) [sourceUnit, unit]
      unit.content (languageFor {} unit) = .ok records := by
    rw [languageFor_unit]
    exact worked_eq_ok hrecords rfl
  obtain ⟨hget, hbatch⟩ := found_iff_standsFor directory hollowDisk hollow gives_load_hollow
  refine ⟨gives_load_hollow, hget {} source _ (isSupported_name .typeScript), supported_units,
    records, ?_⟩
  rcases hbatch parse {} {} {} [sourceUnit, unit] supported_units with
    ⟨⟨-, u, hu, hmissed, e, hfails⟩, -⟩ | ⟨⟨u, hu, -, hmissed, rs, hrs, hdeep⟩, -⟩ |
      ⟨results, cache', houtcome, hresults⟩
  · rcases List.mem_pair.1 hu with rfl | rfl
    · cases cachedRecords_sourceUnit.symm.trans hmissed
    · rw [languageFor_unit] at hfails
      cases hrecords.symm.trans hfails
  · rcases List.mem_pair.1 hu with rfl | rfl
    · cases cachedRecords_sourceUnit.symm.trans hmissed
    · cases hanalyzed.symm.trans hrs
      exact absurd (Nat.lt_of_lt_of_le hdeep hdepth) (by decide)
  · obtain ⟨f, _, hfirst, hrest, rfl⟩ := List.forall₂_cons_left_iff.1 hresults
    obtain ⟨g, _, hsecond, hnil, rfl⟩ := List.forall₂_cons_left_iff.1 hrest
    cases hnil
    have hstored : hollow.Stores {} sourceUnit.content (languageFor {} sourceUnit) [] := by
      rw [languageFor_sourceUnit]
      exact stores_hollow
    rw [hfirst.1 [] hstored, hsecond.2 not_stores_unit, hanalyzed] at houtcome
    exact ⟨cache', hrecords, houtcome⟩

end Sample

end Cache

end FunctionInventory
