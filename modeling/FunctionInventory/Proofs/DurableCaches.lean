import FunctionInventory.Proofs.CanonicalData
import FunctionInventory.Proofs.FailedSaves

/-!
# Caches that are saved and loaded again

Records that were put into a cache come back from its file, the last ones under each key. A
file that misses its end comes back as an empty cache. A cache that nothing was put into is not
saved at all, so that a file that is already there stays.
-/
namespace FunctionInventory

/-- Under other keys, putting changes nothing. -/
theorem Value.find?_put_of_ne {t : Text} {key : Value} (h : key ≠ .text t) (v : Value)
    (members : List (Value × Value)) :
    Value.find? key (Value.put (.text t) v members) = Value.find? key members := by
  have hother : ¬ Value.sameKey (.text t) key = true := by
    cases key with
    | text u => simpa [MessagePack.sameKey_text] using fun heq => h (congrArg Value.text heq.symm)
    | _ => simp [Value.sameKey, Value.scaled?]
  induction members with
  | nil => simp [Value.put, Value.find?, hother]
  | cons m members ih =>
    obtain ⟨k, w⟩ := m
    rw [Value.put]
    by_cases hsame : Value.sameKey k (.text t) = true
    · obtain rfl := sameKey_text_iff.1 hsame
      simp [Value.find?, hother, hsame]
    · rw [if_neg hsame]
      by_cases hfound : Value.sameKey k key = true
      · simp [Value.find?, hfound]
      · simpa [Value.find?, hfound] using ih

namespace Cache

open Logged MessagePack

/-- Records that are to be stored for a content in a language. -/
structure Put where
  content : Text
  language : Text
  records : List FunctionRecord

/-- The key under which records are stored, if they are: they must not be nested too deep, and the
name of their language must have bytes. -/
def Put.key? (limits : Limits) (p : Put) : Option Text :=
  if FunctionRecord.depthAll p.records ≤ limits.data then
    (contentKey p.content p.language).toOption
  else none

/-- The cache after a put; one that fails changes nothing. -/
def afterPut (limits : Limits) (c : Cache) (p : Put) : Cache :=
  match c.put limits p.content p.language p.records with
  | .ok c' => c'
  | .error _ => c

def afterPuts (limits : Limits) (c : Cache) (puts : List Put) : Cache :=
  puts.foldl (afterPut limits) c

/-- The records of the last of some puts under a key. -/
def lastUnder (limits : Limits) (puts : List Put) (key : Text) : Option (List FunctionRecord) :=
  (puts.reverse.find? fun p => p.key? limits == some key).map (·.records)

variable {limits : Limits}

theorem Put.key?_eq_some_iff {p : Put} {key : Text} : p.key? limits = some key ↔
    FunctionRecord.depthAll p.records ≤ limits.data ∧
      contentKey p.content p.language = .ok key := by
  unfold Put.key?
  split
  · next hdepth =>
    cases contentKey p.content p.language <;> simp [Except.toOption, hdepth]
  · next hdeep => simp [hdeep]

theorem afterPut_of_key? {p : Put} {key : Text} (h : p.key? limits = some key) (c : Cache) :
    c.afterPut limits p = { c with
      entries :=
        Value.put (.text key) (.list (FunctionRecord.toValues .camelCase p.records)) c.entries
      dirty := true } := by
  obtain ⟨hdepth, hkey⟩ := Put.key?_eq_some_iff.1 h
  rw [afterPut, put_eq_ok_iff.2 ⟨hdepth, key, hkey, rfl⟩]

theorem afterPut_of_key?_eq_none {p : Put} (h : p.key? limits = none) (c : Cache) :
    c.afterPut limits p = c := by
  unfold afterPut
  split
  · next c' hput =>
    obtain ⟨hdepth, key, hkey, -⟩ := put_eq_ok_iff.1 hput
    rw [Put.key?_eq_some_iff.2 ⟨hdepth, hkey⟩] at h
    cases h
  · rfl

/-- Every entry is the data of records, under a text, and no key comes twice. -/
structure HoldsRecords (entries : List (Value × Value)) : Prop where
  entry : ∀ m ∈ entries, ∃ (key : Text) (records : List FunctionRecord),
    m = (.text key, .list (FunctionRecord.toValues .camelCase records))
  distinct : entries.Pairwise fun m n => m.1 ≠ n.1

theorem HoldsRecords.keys {entries : List (Value × Value)} (h : HoldsRecords entries) :
    ∀ m ∈ entries, ∃ key, m.1 = .text key := by
  intro m hm
  obtain ⟨key, records, rfl⟩ := h.entry m hm
  exact ⟨key, rfl⟩

theorem HoldsRecords.plain {entries : List (Value × Value)} (h : HoldsRecords entries) :
    Plain (.map entries) := by
  refine .map h.keys h.distinct fun m hm => ?_
  obtain ⟨key, records, rfl⟩ := h.entry m hm
  exact FunctionRecord.plain_toValues records

theorem HoldsRecords.afterPut {c : Cache} (h : HoldsRecords c.entries) (p : Put) :
    HoldsRecords (c.afterPut limits p).entries := by
  cases hkey : p.key? limits with
  | none => rwa [afterPut_of_key?_eq_none hkey]
  | some key =>
    rw [afterPut_of_key? hkey]
    refine ⟨fun m hm => ?_, pairwise_put h.distinct⟩
    rcases mem_put hm with hm | rfl
    · exact h.entry m hm
    · exact ⟨key, p.records, rfl⟩

theorem HoldsRecords.afterPuts {c : Cache} (h : HoldsRecords c.entries) (puts : List Put) :
    HoldsRecords (c.afterPuts limits puts).entries := by
  induction puts generalizing c with
  | nil => exact h
  | cons p puts ih => exact ih (h.afterPut p)

theorem directory_afterPuts (limits : Limits) (c : Cache) (puts : List Put) :
    (c.afterPuts limits puts).directory = c.directory := by
  induction puts generalizing c with
  | nil => rfl
  | cons p puts ih =>
    refine (ih (c.afterPut limits p)).trans ?_
    cases hkey : p.key? limits with
    | none => rw [afterPut_of_key?_eq_none hkey]
    | some key => rw [afterPut_of_key? hkey]

/-- The mark of change is set by the first put that stores its records. -/
theorem dirty_afterPuts (limits : Limits) (c : Cache) (puts : List Put) :
    (c.afterPuts limits puts).dirty = true ↔
      c.dirty = true ∨ ∃ p ∈ puts, (p.key? limits).isSome := by
  induction puts generalizing c with
  | nil => simp [afterPuts]
  | cons p puts ih =>
    rw [List.exists_mem_cons_iff]
    refine (ih (c.afterPut limits p)).trans ?_
    cases hkey : p.key? limits with
    | none => simp [afterPut_of_key?_eq_none hkey]
    | some key => simp [afterPut_of_key? hkey]

theorem afterPuts_of_none_stored {puts : List Put}
    (h : ¬ ∃ p ∈ puts, (p.key? limits).isSome) (c : Cache) : c.afterPuts limits puts = c := by
  induction puts with
  | nil => rfl
  | cons p puts ih =>
    rw [List.exists_mem_cons_iff, not_or] at h
    have hfirst : c.afterPut limits p = c := afterPut_of_key?_eq_none (by simpa using h.1) c
    rw [afterPuts, List.foldl_cons, hfirst]
    exact ih h.2

theorem lastUnder_append_of_key? {p : Put} {key : Text} (puts : List Put)
    (h : p.key? limits = some key) : lastUnder limits (puts ++ [p]) key = some p.records := by
  rw [lastUnder, List.reverse_append, List.reverse_singleton, List.singleton_append,
    List.find?_cons_of_pos (by simp [h]), Option.map_some]

theorem lastUnder_append_of_ne {p : Put} {key : Text} (puts : List Put)
    (h : p.key? limits ≠ some key) :
    lastUnder limits (puts ++ [p]) key = lastUnder limits puts key := by
  rw [lastUnder, List.reverse_append, List.reverse_singleton, List.singleton_append,
    List.find?_cons_of_neg (by simp [h]), lastUnder]

/-- Where all puts under a key agree, it does not matter which is the last. -/
theorem lastUnder_eq_some {puts : List Put} {key : Text} {records : List FunctionRecord} {p : Put}
    (hp : p ∈ puts) (hkey : p.key? limits = some key)
    (h : ∀ q ∈ puts, q.key? limits = some key → q.records = records) :
    lastUnder limits puts key = some records := by
  have hfound : (puts.reverse.find? fun p => p.key? limits == some key).isSome := by
    rw [List.find?_isSome]
    exact ⟨p, List.mem_reverse.2 hp, by simp [hkey]⟩
  obtain ⟨q, hq⟩ := Option.isSome_iff_exists.1 hfound
  have hmem : q ∈ puts := List.mem_reverse.1 (List.mem_of_find?_eq_some hq)
  have hsame : q.key? limits = some key := by simpa using List.find?_some hq
  rw [lastUnder, hq, Option.map_some, h q hmem hsame]

/-- Under a key that nothing was put under, there is what was there before. -/
theorem find?_afterPuts_of_ne {key : Value} {puts : List Put}
    (h : ∀ p ∈ puts, ∀ t, p.key? limits = some t → key ≠ .text t) (c : Cache) :
    Value.find? key (c.afterPuts limits puts).entries = Value.find? key c.entries := by
  induction puts generalizing c with
  | nil => rfl
  | cons p puts ih =>
    obtain ⟨hfirst, hrest⟩ := List.forall_mem_cons.1 h
    refine (ih hrest (c.afterPut limits p)).trans ?_
    cases hkey : p.key? limits with
    | none => rw [afterPut_of_key?_eq_none hkey]
    | some t =>
      rw [afterPut_of_key? hkey]
      exact Value.find?_put_of_ne (hfirst t hkey) _ _

/-- What is found under a key is what was put there last, or else what was there before. -/
theorem find?_afterPuts (limits : Limits) (c : Cache) (puts : List Put) (key : Text) :
    Value.find? (.text key) (c.afterPuts limits puts).entries =
      ((lastUnder limits puts key).map fun records =>
        Value.list (FunctionRecord.toValues .camelCase records)).or
          (Value.find? (.text key) c.entries) := by
  induction puts using List.reverseRecOn with
  | nil => rfl
  | append_singleton puts p ih =>
    rw [afterPuts, List.foldl_append, List.foldl_cons, List.foldl_nil]
    rw [afterPuts] at ih
    cases hkey : p.key? limits with
    | none => rw [afterPut_of_key?_eq_none hkey, ih, lastUnder_append_of_ne puts (by simp [hkey])]
    | some key' =>
      rw [afterPut_of_key? hkey]
      by_cases heq : key' = key
      · have hsame : Value.sameKey (.text key) (.text key) := by simp [sameKey_text]
        subst heq
        rw [Value.find?_put hsame, lastUnder_append_of_key? puts hkey]
        rfl
      · have hne : Value.text key ≠ .text key' := by simpa using Ne.symm heq
        rw [Value.find?_put_of_ne hne, ih, lastUnder_append_of_ne puts (by simp [hkey, heq])]

/-- What was put last was stored. -/
theorem depthAll_of_lastUnder {puts : List Put} {key : Text} {records : List FunctionRecord}
    (h : lastUnder limits puts key = some records) :
    FunctionRecord.depthAll records ≤ limits.data := by
  obtain ⟨p, hp, rfl⟩ := Option.map_eq_some_iff.1 h
  have hkey : p.key? limits = some key := by simpa using List.find?_some hp
  exact (Put.key?_eq_some_iff.1 hkey).1

theorem found_afterPuts (limits : Limits) (directory : Path) (puts : List Put)
    (content language : Text) :
    (afterPuts limits { directory } puts).found limits content language =
      (contentKey content language).map (lastUnder limits puts) := by
  have hfind : ∀ key, (Value.find? (.text key) (afterPuts limits { directory } puts).entries).bind
      (recordsOf? limits) = lastUnder limits puts key := by
    intro key
    rw [find?_afterPuts limits]
    cases hlast : lastUnder limits puts key with
    | none => rfl
    | some records => exact recordsOf?_toValues_eq_some_iff.2 ⟨rfl, depthAll_of_lastUnder hlast⟩
  rw [found]
  simp only [hfind]

/-- A file with a part of what is written, but not with all of it, counts as none. -/
theorem loaded_of_part {c : Cache} (h : HoldsRecords c.entries) {bytes part : List UInt8}
    (hw : c.encode limits = .ok bytes) (hpart : part <+: bytes) (hne : part ≠ bytes)
    {left : FileSystem} (hread : left.read c.path = .ok part) :
    loaded { directory := c.directory } left = .ok { directory := c.directory } := by
  have hlength : part.length < bytes.length := by
    have hle := hpart.length_le
    have hlength : part.length ≠ bytes.length := fun heq => hne (hpart.eq_of_length heq)
    omega
  have hdamaged : contentOf part = .damaged := by
    rw [List.prefix_iff_eq_take.1 hpart]
    exact contentOf_take h.plain hw hlength
  have hload := loaded_of_read (c := { directory := c.directory }) hread
  rwa [hdamaged] at hload

theorem dropLast_ne_of_encode {c : Cache} (h : HoldsRecords c.entries) {bytes : List UInt8}
    (hw : c.encode limits = .ok bytes) : bytes.dropLast ≠ bytes := by
  have hne : bytes ≠ [] := by
    rintro rfl
    cases contentOf_write h.plain hw
  intro heq
  have hlength := congrArg List.length heq
  have hpos := List.length_pos_iff.2 hne
  rw [List.length_dropLast] at hlength
  omega

/-- For all records that are put into a new cache, whatever the system refuses and whatever is
in the file tree: if a put stored its records and the save that follows completes, then a new
cache loads the same entries and gives the same answers, which are the records of the last put
under the key asked for. If no put did, nothing is saved. From a file with a part of the bytes
to be written, even with none of them, a new cache loads nothing and finds nothing. -/
theorem puts_come_back (limits : Limits) (refusals : Refusals) (directory : Path)
    (disk : FileSystem) (puts : List Put) :
    let c := afterPuts limits { directory } puts
    ∃ saved, Returns (c.saveUnder limits refusals disk) saved ∧
      ((∃ p ∈ puts, (p.key? limits).isSome) → saved.unwritable = none → saved.cache.dirty = false →
        ∃ bytes c', c.encode limits = .ok bytes ∧
          saved.disk.read c.path = .ok bytes ∧
          Gives (load { directory } saved.disk) (.ok c') ∧ c'.entries = c.entries ∧
          ∀ content language, c'.get limits content language = c.get limits content language ∧
            Gives (c'.get limits content language)
              ((contentKey content language).map (lastUnder limits puts))) ∧
      ((¬ ∃ p ∈ puts, (p.key? limits).isSome) → saved = ⟨{ directory }, disk, none⟩) ∧
      ∀ bytes, c.encode limits = .ok bytes →
        ∀ part, part <+: bytes → part ≠ bytes →
        ∀ left : FileSystem, left.read c.path = .ok part →
          Gives (load { directory } left) (.ok { directory }) ∧
          ∀ content language, Gives (get limits { directory } content language)
            ((contentKey content language).map fun _ => none) := by
  intro c
  have hdirectory : c.directory = directory := directory_afterPuts limits _ puts
  have hrecords : HoldsRecords c.entries := HoldsRecords.afterPuts ⟨by simp, .nil⟩ puts
  obtain ⟨saved, hreturns, hsaves⟩ := exists_returns_saveUnder limits refusals c disk
  refine ⟨saved, hreturns, ?_, ?_, ?_⟩
  · intro hstored _ hclean
    have dirty : c.dirty = true := (dirty_afterPuts limits _ puts).2 (.inr hstored)
    obtain ⟨-, -, bytes, hbytes⟩ := (hsaves.effects.completes_iff dirty).1 hclean
    have hread := hsaves.effects.holds_entries dirty hclean bytes hbytes
    have hpath : Cache.path { directory } = c.path := by rw [path, path, hdirectory]
    have hload : loaded { directory } saved.disk = .ok { directory, entries := c.entries } := by
      rw [loaded_of_read (hpath ▸ hread), contentOf_write hrecords.plain hbytes]
    refine ⟨bytes, { directory, entries := c.entries }, hbytes, hread, hload ▸ gives_load _ _, rfl,
      fun content language => ⟨rfl, ?_⟩⟩
    have hget := gives_get limits c content language
    rw [found_afterPuts] at hget
    exact hget
  · intro hnone
    have hc : c = { directory } := afterPuts_of_none_stored hnone _
    rw [hc] at hsaves
    cases hsaves with
    | unchanged => rfl
    | _ dirty => cases dirty
  · intro bytes hbytes part hpart hne left hread
    have hload := loaded_of_part hrecords hbytes hpart hne hread
    rw [hdirectory] at hload
    exact ⟨hload ▸ gives_load _ _, fun content language => gives_get limits _ content language⟩

namespace Sample

open FunctionRecord.Sample (outer)

/-- Two sources; the records of the first one are put again, with others nested in them. -/
def puts : List Put := [
  ⟨"a", "typescript", []⟩,
  ⟨"b", "javascript", [FunctionRecord.Sample.inner]⟩,
  ⟨"a", "typescript", [outer, FunctionRecord.Sample.inner]⟩]

theorem key?_puts : ∀ p ∈ puts, p.key? default = some (keyOf p.content p.language) := by
  have hinner : FunctionRecord.depth FunctionRecord.Sample.inner = 1 := by
    simp [FunctionRecord.depth_eq, FunctionRecord.Sample.inner]
  have houter : FunctionRecord.depth outer = 2 := by
    simp [FunctionRecord.depth_eq, outer, FunctionRecord.Sample.inner]
  intro p hp
  rw [Put.key?_eq_some_iff]
  simp only [puts, List.mem_cons, List.not_mem_nil, or_false] at hp
  rcases hp with rfl | rfl | rfl
  · exact ⟨by simp, contentKey_eq (isSupported_name .typeScript) _⟩
  · exact ⟨by simp [hinner, default, instInhabitedLimits.default],
      contentKey_eq (isSupported_name .javaScript) _⟩
  · exact ⟨by simp [hinner, houter, default, instInhabitedLimits.default],
      contentKey_eq (isSupported_name .typeScript) _⟩

theorem lastUnder_puts :
    lastUnder default puts (keyOf "a" "typescript") = some [outer, FunctionRecord.Sample.inner] ∧
    lastUnder default puts (keyOf "b" "javascript") = some [FunctionRecord.Sample.inner] := by
  have hne : keyOf "a" "typescript" ≠ keyOf "b" "javascript" := by decide +kernel
  have hkeys := key?_puts
  simp only [puts, List.forall_mem_cons] at hkeys
  obtain ⟨hfirst, hsecond, hthird, -⟩ := hkeys
  generalize keyOf "a" "typescript" = first at hne hthird ⊢
  generalize keyOf "b" "javascript" = second at hne hsecond ⊢
  have hother : (⟨"a", "typescript", [outer, FunctionRecord.Sample.inner]⟩ : Put).key? default ≠
      some second := by
    rw [hthird]
    exact fun h => hne (Option.some.inj h)
  constructor
  · exact lastUnder_append_of_key? [_, _] hthird
  · exact (lastUnder_append_of_ne [_, _] hother).trans (lastUnder_append_of_key? [_] hsecond)

theorem exists_encode_puts :
    ∃ bytes, (afterPuts default { directory } puts).encode default = .ok bytes := by
  apply exists_eq_ok_of_isOk
  decide +kernel

theorem stored_puts : ∃ p ∈ puts, (p.key? default).isSome := by
  have hfirst := key?_puts _ List.mem_cons_self
  exact ⟨_, List.mem_cons_self, Option.isSome_iff_exists.2 ⟨_, hfirst⟩⟩

theorem completes_puts {saved : Saved}
    (h : SaveEffects default {} (afterPuts default { directory } puts) disk saved) :
    saved.unwritable = none ∧ saved.cache.dirty = false := by
  obtain ⟨bytes, hbytes⟩ := exists_encode_puts
  have dirty := (dirty_afterPuts default { directory } puts).2 (.inr stored_puts)
  have opened : Opens {} (afterPuts default { directory } puts) disk :=
    (opens_iff_of_read read_disk).2 ⟨rfl, rfl⟩
  refine ⟨?_, (h.completes_iff dirty).2 ⟨opened, rfl, bytes, hbytes⟩⟩
  rw [Option.eq_none_iff_forall_ne_some]
  intro e he
  obtain ⟨-, -, hfails⟩ := (h.fails_iff e).1 he
  rw [hbytes] at hfails
  cases hfails

/-- The cache is saved and comes back with the records that were put last, and a file that misses
the last byte comes back as an empty cache. -/
theorem puts_come_back_sample : (∃ p ∈ puts, (p.key? default).isSome) ∧
    ∃ saved bytes,
      Returns ((afterPuts default { directory } puts).save default disk) saved ∧
      saved.unwritable = none ∧ saved.cache.dirty = false ∧
      (∃ c', Gives (load { directory } saved.disk) (.ok c') ∧
        Gives (c'.get default "a" "typescript") (.ok (some [outer, FunctionRecord.Sample.inner])) ∧
        Gives (c'.get default "b" "javascript") (.ok (some [FunctionRecord.Sample.inner]))) ∧
      bytes.dropLast <+: bytes ∧ bytes.dropLast ≠ bytes ∧
      ∃ left : FileSystem, left.read (directory / fileName) = .ok bytes.dropLast ∧
        Gives (load { directory } left) (.ok { directory }) ∧
        Gives (get default { directory } "a" "typescript") (.ok none) := by
  have ha : contentKey "a" "typescript" = .ok (keyOf "a" "typescript") :=
    contentKey_eq (isSupported_name .typeScript) "a"
  have hb : contentKey "b" "javascript" = .ok (keyOf "b" "javascript") :=
    contentKey_eq (isSupported_name .javaScript) "b"
  obtain ⟨bytes, hbytes⟩ := exists_encode_puts
  obtain ⟨saved, hreturns, hback, -, hcut⟩ := puts_come_back default {} directory disk puts
  obtain ⟨saved', hreturns', hsaves⟩ :=
    exists_returns_saveUnder default {} (afterPuts default { directory } puts) disk
  obtain rfl : saved = saved' := hreturns.unique hreturns'
  obtain ⟨hwritable, hclean⟩ := completes_puts hsaves.effects
  obtain ⟨-, c', -, -, hload, -, hanswers⟩ := hback stored_puts hwritable hclean
  have hgeta := (hanswers "a" "typescript").2
  have hgetb := (hanswers "b" "javascript").2
  rw [ha, Except.map, lastUnder_puts.1] at hgeta
  rw [hb, Except.map, lastUnder_puts.2] at hgetb
  have hpart := List.dropLast_prefix bytes
  have hne : bytes.dropLast ≠ bytes :=
    dropLast_ne_of_encode (.afterPuts ⟨by simp, .nil⟩ puts) hbytes
  obtain ⟨left, hleft⟩ := FileSystem.exists_write (by decide) read_disk bytes.dropLast
  have hread := FileSystem.read_write hleft
  obtain ⟨hempty, hnone⟩ := hcut bytes hbytes _ hpart hne left hread
  have hmiss := hnone "a" "typescript"
  rw [ha, Except.map] at hmiss
  exact ⟨stored_puts, saved, bytes, hreturns, hwritable, hclean, ⟨c', hload, hgeta, hgetb⟩, hpart,
    hne, left, hread, hempty, hmiss⟩

/-- Nothing was put into the cache. So the save leaves the file that is there, and its entry is
loaded. -/
theorem unchanged_cache_not_saved : ∃ saved c',
    Returns ((afterPuts default { directory } []).save default disk) saved ∧
    saved.unwritable = none ∧ saved.cache.dirty = false ∧
    Gives (load { directory } saved.disk) (.ok c') ∧
    (afterPuts default { directory } []).entries = [] ∧ c'.entries ≠ [] := by
  refine ⟨⟨{ directory }, disk, none⟩, cache, returns_pure _, rfl, rfl, ?_, rfl, by simp [cache]⟩
  exact loaded_disk ▸ gives_load _ _

end Sample

end Cache

end FunctionInventory
