import FunctionInventory.Proofs.DurableCaches
import FunctionInventory.Proofs.RecordChecks

/-!
# Cache files of any content

Which files are current, and with which entries, said by the format of the file. A new cache
takes over the entries of a current file and stays empty with any other one. Whatever the
entries are, looking them up ends well, and what is found has lines in order at every depth.
-/
namespace FunctionInventory

namespace Cache

open Logged MessagePack

/-- The value has two elements, which are a key and what is under it. -/
def IsPair (v : Value) (m : Value × Value) : Prop := v.elements? = some [m.1, m.2] ∧ m.1.isKey = true

/-- The value converts to a map with the given members: it is a map, or it goes through pairs,
of which the later ones win. -/
inductive Converts : Value → List (Value × Value) → Prop
  | map (ms : List (Value × Value)) : Converts (.map ms) ms
  | pairs {v : Value} {parts : List Value} {pairs : List (Value × Value)}
      (other : ∀ ms, v ≠ .map ms) (hparts : v.elements? = some parts)
      (hpairs : List.Forall₂ IsPair parts pairs) :
      Converts v (pairs.foldl (fun ms m => Value.put m.1 m.2 ms) [])

/-- The bytes are one map, of the current version, whose entries convert to a map with the
given members. -/
def IsCurrent (bytes : List UInt8) (entries : List (Value × Value)) : Prop :=
  ∃ ms v, Encodes (.map ms) bytes ∧ Value.find? (.text "version") ms = some (.text version) ∧
    Value.find? (.text "entries") ms = some v ∧ Converts v entries

theorem pairOf?_eq_some_iff {v : Value} {m : Value × Value} : pairOf? v = some m ↔ IsPair v m := by
  obtain ⟨k, w⟩ := m
  unfold pairOf? IsPair
  constructor
  · intro h
    split at h
    · next key value helements =>
      split at h
      · next hkey =>
        cases h
        exact ⟨helements, hkey⟩
      · cases h
    · cases h
  · rintro ⟨helements, hkey⟩
    simp only [helements]
    exact if_pos hkey

theorem membersOf?_eq_some_iff {v : Value} {entries : List (Value × Value)} :
    membersOf? v = some entries ↔ Converts v entries := by
  constructor
  · intro h
    unfold membersOf? at h
    split at h
    · cases h
      exact .map _
    · next other =>
      obtain ⟨parts, hparts, h⟩ := Option.bind_eq_some_iff.1 h
      obtain ⟨pairs, hpairs, h⟩ := Option.bind_eq_some_iff.1 h
      cases h
      refine .pairs other hparts ((mapM_eq_some_iff.1 hpairs).imp ?_)
      exact fun part m hm => pairOf?_eq_some_iff.1 hm
  · intro h
    cases h with
    | map ms => rfl
    | @pairs v parts pairs other hparts hpairs =>
      have hmapM : parts.mapM pairOf? = some pairs :=
        mapM_eq_some_iff.2 (hpairs.imp fun part m hm => pairOf?_eq_some_iff.2 hm)
      rw [membersOf?]
      · simp [hparts, hmapM]
      · exact other

/-- A file counts as current if and only if it is one. -/
theorem contentOf_eq_current_iff {bytes : List UInt8} {entries : List (Value × Value)} :
    contentOf bytes = .current entries ↔ IsCurrent bytes entries := by
  constructor
  · intro h
    unfold contentOf at h
    split at h
    · next ms hread =>
      split at h
      · next v hversion =>
        split at h
        · next heq =>
          split at h
          · next members hmembers =>
            cases h
            obtain ⟨v, hv, hconverts⟩ := Option.bind_eq_some_iff.1 hmembers
            rw [heq] at hversion
            exact ⟨ms, v, read?_eq_some_iff.1 hread, hversion, hv, membersOf?_eq_some_iff.1 hconverts⟩
          · cases h
        · cases h
      · cases h
    · cases h
  · rintro ⟨ms, v, hform, hversion, hv, hconverts⟩
    rw [contentOf, read?_eq_some_iff.2 hform]
    simp [hversion, hv, membersOf?_eq_some_iff.2 hconverts]

section

open FunctionRecord

/-- Records that come from the items of an entry, all of whose lines are in order. -/
structure Ordered (limits : Limits) (items : List Value) (records : List FunctionRecord) :
    Prop where
  checked : List.Forall₂ (fun w r => check limits.data w = .ok r) items records
  /-- In the data of the entry the lines are in order. -/
  data : ∀ item ∈ items, OrderedLines item
  lines : ∀ r ∈ walkAll records, 1 ≤ r.lines.start ∧ r.lines.start ≤ r.lines.stop
  /-- The records have the lines of the data. -/
  origin : ∀ r ∈ walkAll records, ∃ item ∈ items, ∃ path w, dataAt? item path = some w ∧
    HasLines w r.lines.start r.lines.stop

theorem ordered_of_checked {limits : Limits} {items : List Value} {records : List FunctionRecord}
    (h : List.Forall₂ (fun w r => check limits.data w = .ok r) items records) :
    Ordered limits items records where
  checked := h
  data := by
    induction h with
    | nil => simp
    | cons hr _ ih => exact List.forall_mem_cons.2 ⟨orderedLines_of_check hr, ih⟩
  lines r _ := ⟨r.lines.pos, r.lines.le⟩
  origin := by
    induction h with
    | nil => simp
    | @cons item r items records hr _ ih =>
      intro s hs
      rw [List.exists_mem_cons_iff]
      rcases List.mem_append.1 (show s ∈ r.walk ++ walkAll records from hs) with hs | hs
      · exact .inl (exists_hasLines_of_mem_walk hr hs)
      · exact .inr (ih s hs)

end

/-- Whatever the entries are, looking up ends well, and what it gives is in order. -/
theorem exists_gives_get_ordered (limits : Limits) (c : Cache) (content : Text) {language : Text}
    (hlanguage : IsSupported language) :
    ∃ found, Gives (c.get limits content language) (.ok found) ∧ ∀ records ∈ found, ∃ v items,
      Value.find? (.text (keyOf content language)) c.entries = some v ∧
        v.elements? = some items ∧ Ordered limits items records := by
  have hget := gives_get limits c content language
  rw [found, contentKey_eq hlanguage] at hget
  refine ⟨_, hget, fun records hrecords => ?_⟩
  obtain ⟨v, hv, hrecords⟩ := Option.bind_eq_some_iff.1 hrecords
  obtain ⟨items, hitems, hchecked⟩ := recordsOf?_eq_some_iff.1 hrecords
  exact ⟨v, items, hv, hitems, ordered_of_checked hchecked⟩

/-- Whatever bytes are in the file of a new cache: it loads the entries of a current file, and
nothing from any other one. Afterwards looking up ends well for every content and language, and
any records it gives have, at every depth, lines in order, as the data in the file has. -/
theorem any_file_tolerated (limits : Limits) (directory : Path) (disk : FileSystem)
    (bytes : List UInt8) (h : disk.read (directory / fileName) = .ok bytes) :
    ∃ c, Gives (load { directory } disk) (.ok c) ∧
      (∀ entries, IsCurrent bytes entries → c = { directory, entries }) ∧
      ((¬ ∃ entries, IsCurrent bytes entries) → c = { directory }) ∧
      ∀ content language, IsSupported language →
        ∃ found, Gives (c.get limits content language) (.ok found) ∧ ∀ records ∈ found, ∃ v items,
          Value.find? (.text (keyOf content language)) c.entries = some v ∧
            v.elements? = some items ∧ Ordered limits items records := by
  have hload := loaded_of_read (c := { directory }) h
  refine ⟨_, hload ▸ gives_load _ _, ?_, ?_, ?_⟩
  · intro entries hcurrent
    rw [contentOf_eq_current_iff.2 hcurrent]
  · intro hnone
    cases hcontent : contentOf bytes with
    | current entries => exact absurd ⟨entries, contentOf_eq_current_iff.1 hcontent⟩ hnone
    | outdated => rfl
    | damaged => rfl
  · intro content language hlanguage
    exact exists_gives_get_ordered limits _ content hlanguage

/-- No moment or other value has the code `-2`, so that a file with an extension of this code is
damaged. -/
example : contentOf [
    0x82, 0xa7, 0x76, 0x65, 0x72, 0x73, 0x69, 0x6f, 0x6e, 0xa3, 0x31, 0x2e, 0x30, 0xa7, 0x65, 0x6e,
    0x74, 0x72, 0x69, 0x65, 0x73, 0x82, 0xa1, 0x6b, 0x90, 0xa1, 0x78, 0xd4, 0xfe, 0x00] =
      .damaged := by
  cbv

namespace Sample

theorem isCurrent_stored : IsCurrent stored cache.entries :=
  contentOf_eq_current_iff.1 (contentOf_write plain_entries encode_cache)

theorem any_file_tolerated_sample : disk.read (directory / fileName) = .ok stored ∧
    ∃ c, Gives (load { directory } disk) (.ok c) ∧ c.entries = [(.text "k", .list [])] := by
  obtain ⟨c, hload, hcurrent, -⟩ := any_file_tolerated default directory disk stored read_disk
  refine ⟨read_disk, c, hload, ?_⟩
  rw [hcurrent cache.entries isCurrent_stored]
  rfl

end Sample

end Cache

end FunctionInventory
