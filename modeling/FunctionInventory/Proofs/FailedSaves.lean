import FunctionInventory.Proofs.CacheEntries

/-!
# Saving that fails

Opening the cache file empties it, before it is known whether the entries can be written. A
save that fails earlier leaves all files as they were. One that fails later leaves an empty
file; if it fails because of the entries, as it does for a text with a lone surrogate, it
does not end with a warning but with an error.
-/
namespace FunctionInventory

namespace MessagePack

/-- The text is a part of the value, at any depth. -/
inductive HasText (t : Text) : Value → Prop
  | text : HasText t (.text t)
  | item {v : Value} {vs : List Value} (hv : v ∈ vs) (h : HasText t v) : HasText t (.list vs)
  | key {m : Value × Value} {ms : List (Value × Value)} (hm : m ∈ ms) (h : HasText t m.1) :
      HasText t (.map ms)
  | member {m : Value × Value} {ms : List (Value × Value)} (hm : m ∈ ms) (h : HasText t m.2) :
      HasText t (.map ms)

theorem exists_write_of_writeItems {levels : Nat} {vs : List Value} {bytes : List UInt8}
    (h : writeItems levels vs = .ok bytes) {v : Value} (hv : v ∈ vs) :
    ∃ part, write levels v = .ok part := by
  induction vs generalizing bytes with
  | nil => cases hv
  | cons first vs ih =>
    rw [writeItems] at h
    obtain ⟨part, hpart, h⟩ := bind_eq_ok_iff.1 h
    obtain ⟨rest, hrest, -⟩ := bind_eq_ok_iff.1 h
    rcases List.mem_cons.1 hv with rfl | hv
    · exact ⟨part, hpart⟩
    · exact ih hrest hv

theorem exists_write_of_writeMembers {levels : Nat} {ms : List (Value × Value)}
    {bytes : List UInt8} (h : writeMembers levels ms = .ok bytes) {m : Value × Value}
    (hm : m ∈ ms) :
    (∃ part, write levels m.1 = .ok part) ∧ ∃ part, write levels m.2 = .ok part := by
  induction ms generalizing bytes with
  | nil => cases hm
  | cons first ms ih =>
    obtain ⟨k, v⟩ := first
    rw [writeMembers] at h
    obtain ⟨key, hkey, h⟩ := bind_eq_ok_iff.1 h
    obtain ⟨value, hvalue, h⟩ := bind_eq_ok_iff.1 h
    obtain ⟨rest, hrest, -⟩ := bind_eq_ok_iff.1 h
    rcases List.mem_cons.1 hm with rfl | hm
    · exact ⟨⟨key, hkey⟩, value, hvalue⟩
    · exact ih hrest hm

theorem exists_writeItems {levels : Nat} {vs : List Value} {bytes : List UInt8}
    (h : write (levels + 1) (.list vs) = .ok bytes) : ∃ rest, writeItems levels vs = .ok rest := by
  rw [write] at h
  obtain ⟨head, -, h⟩ := bind_eq_ok_iff.1 h
  obtain ⟨rest, hrest, -⟩ := bind_eq_ok_iff.1 h
  exact ⟨rest, hrest⟩

theorem exists_writeMembers {levels : Nat} {ms : List (Value × Value)} {bytes : List UInt8}
    (h : write (levels + 1) (.map ms) = .ok bytes) :
    ∃ rest, writeMembers levels ms = .ok rest := by
  rw [write] at h
  obtain ⟨head, -, h⟩ := bind_eq_ok_iff.1 h
  obtain ⟨rest, hrest, -⟩ := bind_eq_ok_iff.1 h
  exact ⟨rest, hrest⟩

/-- What is written has no text with a lone surrogate. -/
theorem HasText.hasSurrogate_eq_false {t : Text} {v : Value} (h : HasText t v) {levels : Nat}
    {bytes : List UInt8} (hw : write levels v = .ok bytes) : t.hasSurrogate = false := by
  obtain ⟨levels, rfl⟩ := exists_eq_succ_of_write hw
  induction h generalizing levels bytes with
  | text =>
    rw [write, Text.encodeStrict?] at hw
    by_cases hsurrogate : t.hasSurrogate
    · rw [if_pos hsurrogate] at hw
      cases hw
    · simpa using hsurrogate
  | item hv _ ih =>
    obtain ⟨rest, hrest⟩ := exists_writeItems hw
    obtain ⟨part, hpart⟩ := exists_write_of_writeItems hrest hv
    obtain ⟨below, rfl⟩ := exists_eq_succ_of_write hpart
    exact ih below hpart
  | key hm _ ih =>
    obtain ⟨rest, hrest⟩ := exists_writeMembers hw
    obtain ⟨⟨part, hpart⟩, -⟩ := exists_write_of_writeMembers hrest hm
    obtain ⟨below, rfl⟩ := exists_eq_succ_of_write hpart
    exact ih below hpart
  | member hm _ ih =>
    obtain ⟨rest, hrest⟩ := exists_writeMembers hw
    obtain ⟨-, part, hpart⟩ := exists_write_of_writeMembers hrest hm
    obtain ⟨below, rfl⟩ := exists_eq_succ_of_write hpart
    exact ih below hpart

theorem HasText.object {t : Text} {m : String × Value} {ms : List (String × Value)} (hm : m ∈ ms)
    (h : HasText t m.2) : HasText t (.object ms) :=
  .member (List.mem_map.2 ⟨m, hm, rfl⟩) h

theorem HasText.put {t : Text} {v : Value} (h : HasText t v) (k : Value)
    (ms : List (Value × Value)) : HasText t (.map (Value.put k v ms)) := by
  induction ms with
  | nil => exact .member List.mem_cons_self h
  | cons m ms ih =>
    obtain ⟨k', v'⟩ := m
    rw [Value.put]
    split
    · exact .member List.mem_cons_self h
    · cases ih with
      | key hm hkey => exact .key (List.mem_cons_of_mem _ hm) hkey
      | member hm hvalue => exact .member (List.mem_cons_of_mem _ hm) hvalue

end MessagePack

namespace Cache

open Logged MessagePack

/-- The file can be opened for writing, where its directory is made if it is missing. -/
def Opens (refusals : Refusals) (c : Cache) (disk : FileSystem) : Prop :=
  ∃ made emptied, attempt refusals.directory (disk.makeDirectories c.directory) = .ok made ∧
    attempt refusals.opening (made.write c.path []) = .ok emptied

/-- The entries have a text with a lone surrogate. -/
def HasSurrogate (c : Cache) : Prop := ∃ t, HasText t (.map c.entries) ∧ t.hasSurrogate = true

theorem HasSurrogate.exists_encode_error {c : Cache} (h : c.HasSurrogate) (limits : Limits) :
    ∃ e, c.encode limits = .error e := by
  obtain ⟨t, ht, hsurrogate⟩ := h
  cases hw : c.encode limits with
  | error e => exact ⟨e, rfl⟩
  | ok bytes =>
    have hentries : HasText t c.toValue := by
      apply HasText.object (m := ("entries", .map c.entries))
      · simp
      · exact ht
    rw [hentries.hasSurrogate_eq_false hw] at hsurrogate
    cases hsurrogate

/-- Putting records that have such a text makes the entries have it. -/
theorem hasSurrogate_of_put {limits : Limits} {c c' : Cache} {content language : Text}
    {records : List FunctionRecord} (h : c.put limits content language records = .ok c') {t : Text}
    (ht : HasText t (.list (FunctionRecord.toValues .camelCase records)))
    (hsurrogate : t.hasSurrogate = true) : c'.HasSurrogate := by
  obtain ⟨-, key, -, rfl⟩ := put_eq_ok_iff.1 h
  exact ⟨t, ht.put _ _, hsurrogate⟩

/-- What a save does, by what could be done. -/
structure SaveEffects (limits : Limits) (refusals : Refusals) (c : Cache) (disk : FileSystem)
    (saved : Saved) : Prop where
  /-- Nothing but the mark of change may go. -/
  cache : saved.cache = { c with dirty := saved.cache.dirty }
  /-- Without changes nothing is done. -/
  unchanged : c.dirty = false → saved.disk = disk
  /-- The mark goes if the file can be opened, the entries can be written and the system
  takes their bytes. -/
  completes_iff : c.dirty = true → (saved.cache.dirty = false ↔
    Opens refusals c disk ∧ refusals.writing = none ∧
      ∃ bytes, c.encode limits = .ok bytes)
  holds_entries : c.dirty = true → saved.cache.dirty = false →
    ∀ bytes, c.encode limits = .ok bytes → saved.disk.read c.path = .ok bytes
  /-- An error comes from entries that cannot be written, once the file is open. -/
  fails_iff : ∀ e, saved.unwritable = some e ↔
    c.dirty = true ∧ Opens refusals c disk ∧ c.encode limits = .error e
  /-- Before the file is open, failing leaves every file as it was. -/
  keeps_files : saved.cache.dirty = true → ¬ Opens refusals c disk →
    ∀ p bytes, disk.read p = .ok bytes → saved.disk.read p = .ok bytes
  /-- Once it is open, failing leaves it empty. -/
  empties_file : saved.cache.dirty = true → Opens refusals c disk → saved.disk.read c.path = .ok []

theorem exists_write_path {c : Cache} {made emptied : FileSystem}
    (h : made.write c.path [] = .ok emptied) (bytes : List UInt8) :
    ∃ full, emptied.write c.path bytes = .ok full :=
  FileSystem.exists_write (by decide) (FileSystem.read_write h) bytes

section

variable {limits : Limits} {refusals : Refusals} {c : Cache} {disk : FileSystem}

theorem not_opens_of_noDirectory {message : Text}
    (h : attempt refusals.directory (disk.makeDirectories c.directory) = .error message) :
    ¬ Opens refusals c disk := by
  rintro ⟨made, emptied, hmade, -⟩
  rw [h] at hmade
  cases hmade

theorem not_opens_of_unopened {made : FileSystem} {message : Text}
    (hmade : attempt refusals.directory (disk.makeDirectories c.directory) = .ok made)
    (h : attempt refusals.opening (made.write c.path []) = .error message) :
    ¬ Opens refusals c disk := by
  rintro ⟨made', emptied, hmade', hempty⟩
  cases hmade.symm.trans hmade'
  rw [h] at hempty
  cases hempty

/-- A file that is there is opened unless the system refuses. -/
theorem opens_iff_of_read {old : List UInt8} (h : disk.read c.path = .ok old) :
    Opens refusals c disk ↔ refusals.directory = none ∧ refusals.opening = none := by
  constructor
  · rintro ⟨made, emptied, hmade, hempty⟩
    exact ⟨(attempt_eq_ok_iff.1 hmade).1, (attempt_eq_ok_iff.1 hempty).1⟩
  · rintro ⟨hdirectory, hopening⟩
    obtain ⟨emptied, hempty⟩ := FileSystem.exists_write (by decide) h []
    have hmade := FileSystem.makeDirectories_of_read h
    exact ⟨disk, emptied, attempt_eq_ok_iff.2 ⟨hdirectory, hmade⟩,
      attempt_eq_ok_iff.2 ⟨hopening, hempty⟩⟩

theorem SaveEffects.of_clean (clean : c.dirty = false) :
    SaveEffects limits refusals c disk ⟨c, disk, none⟩ where
  cache := rfl
  unchanged _ := rfl
  completes_iff dirty := by cases dirty.symm.trans clean
  holds_entries dirty := by cases dirty.symm.trans clean
  fails_iff := by simp [clean]
  keeps_files _ _ _ _ hread := hread
  empties_file dirty := by cases dirty.symm.trans clean

/-- What holds of every save that stops before the file is open. -/
theorem SaveEffects.of_not_opens {made : FileSystem} (dirty : c.dirty = true)
    (closed : ¬ Opens refusals c disk)
    (h : ∀ p bytes, disk.read p = .ok bytes → made.read p = .ok bytes) :
    SaveEffects limits refusals c disk ⟨c, made, none⟩ where
  cache := rfl
  unchanged clean := by cases dirty.symm.trans clean
  completes_iff _ := by simp [dirty, closed]
  holds_entries _ clean := by cases dirty.symm.trans clean
  fails_iff := by simp [closed]
  keeps_files _ _ := h
  empties_file _ opened := absurd opened closed

/-- What holds of every save that stops while the file is open. -/
theorem SaveEffects.of_emptied {made emptied : FileSystem}
    {failure : Option MessagePack.Unwritable} (dirty : c.dirty = true)
    (opened : Opens refusals c disk) (hempty : made.write c.path [] = .ok emptied)
    (hincomplete : refusals.writing = none → ∀ bytes, c.encode limits ≠ .ok bytes)
    (hfailure : ∀ e, failure = some e ↔ c.encode limits = .error e) :
    SaveEffects limits refusals c disk ⟨c, emptied, failure⟩ where
  cache := rfl
  unchanged clean := by cases dirty.symm.trans clean
  completes_iff _ := by
    simp only [dirty, Bool.true_eq_false, false_iff]
    rintro ⟨-, hwriting, bytes, hbytes⟩
    exact hincomplete hwriting bytes hbytes
  holds_entries _ clean := by cases dirty.symm.trans clean
  fails_iff e := by simp [dirty, opened, hfailure]
  keeps_files _ closed := absurd opened closed
  empties_file _ _ := FileSystem.read_write hempty

theorem SaveEffects.of_written {emptied full : FileSystem} {bytes : List UInt8}
    (dirty : c.dirty = true) (opened : Opens refusals c disk)
    (hbytes : c.encode limits = .ok bytes)
    (hfull : refusals.writing = none ∧ emptied.write c.path bytes = .ok full) :
    SaveEffects limits refusals c disk ⟨{ c with dirty := false }, full, none⟩ where
  cache := rfl
  unchanged clean := by cases dirty.symm.trans clean
  completes_iff _ := by simp [opened, hfull.1, hbytes]
  holds_entries _ _ bytes' hbytes' := by
    cases hbytes.symm.trans hbytes'
    exact FileSystem.read_write hfull.2
  fails_iff := by simp [hbytes]
  keeps_files dirty := by cases dirty
  empties_file dirty := by cases dirty

theorem SavesAs.effects {saved : Saved} (h : SavesAs limits refusals c disk saved) :
    SaveEffects limits refusals c disk saved := by
  cases h with
  | unchanged clean => exact .of_clean clean
  | noDirectory dirty hmade =>
    exact .of_not_opens dirty (not_opens_of_noDirectory hmade) fun _ _ hread => hread
  | unopened dirty hmade hempty =>
    refine .of_not_opens dirty (not_opens_of_unopened hmade hempty) fun p bytes hread => ?_
    exact FileSystem.read_makeDirectories (attempt_eq_ok_iff.1 hmade).2 hread
  | unwritable dirty hmade hempty hbytes =>
    refine .of_emptied dirty ⟨_, _, hmade, hempty⟩ (attempt_eq_ok_iff.1 hempty).2 ?_ ?_
    · simp [hbytes]
    · simp [hbytes]
  | unwritten dirty hmade hempty hbytes hfull =>
    have hopen := (attempt_eq_ok_iff.1 hempty).2
    refine .of_emptied dirty ⟨_, _, hmade, hempty⟩ hopen ?_ ?_
    · intro hwriting
      obtain ⟨full, hwrite⟩ := exists_write_path hopen _
      rw [attempt_eq_ok_iff.2 ⟨hwriting, hwrite⟩] at hfull
      cases hfull
    · simp [hbytes]
  | written dirty hmade hempty hbytes hfull =>
    exact .of_written dirty ⟨_, _, hmade, hempty⟩ hbytes (attempt_eq_ok_iff.1 hfull)

/-- A lone surrogate leads to an error, and to an empty file. -/
theorem SaveEffects.of_hasSurrogate {saved : Saved} (h : SaveEffects limits refusals c disk saved)
    (dirty : c.dirty = true) (opened : Opens refusals c disk) (hsurrogate : c.HasSurrogate) :
    saved.unwritable.isSome ∧ saved.disk.read c.path = .ok [] := by
  obtain ⟨e, he⟩ := hsurrogate.exists_encode_error limits
  have hfails : saved.unwritable = some e := (h.fails_iff e).2 ⟨dirty, opened, he⟩
  have hmarked : saved.cache.dirty = true := by
    by_contra hclean
    obtain ⟨-, -, bytes, hbytes⟩ := (h.completes_iff dirty).1 (by simpa using hclean)
    rw [he] at hbytes
    cases hbytes
  exact ⟨by simp [hfails], h.empties_file hmarked opened⟩

end

/-- Whatever the system refuses, whatever the cache holds and whatever is in the file tree:
a save that fails keeps the files if it fails before the cache file is open, and else leaves
this file empty. A file that is there is opened unless the system refuses, and then a text
of the entries with a lone surrogate leads to an error. -/
theorem saveUnder_effects (limits : Limits) (refusals : Refusals) (c : Cache) (disk : FileSystem) :
    (∀ old, disk.read c.path = .ok old →
      (Opens refusals c disk ↔ refusals.directory = none ∧ refusals.opening = none)) ∧
    ∃ saved, Returns (c.saveUnder limits refusals disk) saved ∧
      SaveEffects limits refusals c disk saved ∧
      (c.dirty = true → Opens refusals c disk → c.HasSurrogate →
        saved.unwritable.isSome ∧ saved.disk.read c.path = .ok []) := by
  refine ⟨fun old hold => opens_iff_of_read hold, ?_⟩
  obtain ⟨saved, hreturns, hsaves⟩ := exists_returns_saveUnder limits refusals c disk
  exact ⟨saved, hreturns, hsaves.effects, hsaves.effects.of_hasSurrogate⟩

namespace Sample

def directory : Path := .ofText "cache"

/-- The cache of a file with one entry. -/
def cache : Cache := { directory, entries := [(.text "k", .list [])] }

def stored : List UInt8 := [
  0x82, 0xa7, 0x76, 0x65, 0x72, 0x73, 0x69, 0x6f, 0x6e, 0xa3, 0x31, 0x2e, 0x30,
  0xa7, 0x65, 0x6e, 0x74, 0x72, 0x69, 0x65, 0x73, 0x81, 0xa1, 0x6b, 0x90]

def disk : FileSystem :=
  { tree := .directory [("cache", .directory [(fileName, .file stored)])] }

/-- A function that returns a lone surrogate. -/
def content : Text :=
  ("function f() \x7b return '" : Text) ++ ⟨0xd800, by decide⟩ :: ("'; \x7d" : Text)

def record : FunctionRecord where
  name := "f"
  lines := default
  sourceText := content

theorem read_disk : disk.read (directory / fileName) = .ok stored := by rfl

theorem encode_cache : cache.encode default = .ok stored := by rfl

theorem plain_entries : Plain (.map cache.entries) := by
  refine .map ?_ ?_ ?_
  · simp [cache]
  · simp [cache]
  · simp [cache, Plain.list]

theorem loaded_disk : loaded { directory } disk = .ok cache := by
  rw [loaded_of_read read_disk, contentOf_write plain_entries encode_cache]
  rfl

theorem hasText_record : HasText content (.list (FunctionRecord.toValues .camelCase [record])) := by
  refine .item List.mem_cons_self ?_
  rw [record, FunctionRecord.toValue]
  apply HasText.object (m := (RecordField.sourceText.key .camelCase, .text content))
  · simp
  · exact .text

/-- An error ends the save, and the entry that the file had is lost. -/
theorem failed_save_empties_file : ∃ changed saved,
    disk.read (directory / fileName) = .ok stored ∧
    Gives (load { directory } disk) (.ok cache) ∧
    cache.put default content "typescript" [record] = .ok changed ∧
    Returns (changed.save default disk) saved ∧ saved.unwritable.isSome ∧
    saved.disk.read (directory / fileName) = .ok [] ∧ stored ≠ [] := by
  have hdepth : FunctionRecord.depthAll [record] ≤ (default : Limits).data := by
    simp [FunctionRecord.depth_eq, record, default, instInhabitedLimits.default]
  have hput : cache.put default content "typescript" [record] = .ok _ :=
    put_eq_ok (isSupported_name .typeScript) cache hdepth
  have hload : Gives (load { directory } disk) (.ok cache) := loaded_disk ▸ gives_load _ _
  have hsurrogate := hasSurrogate_of_put hput hasText_record (by decide)
  obtain ⟨saved, hreturns, hsaves⟩ := exists_returns_saveUnder default {} _ disk
  obtain ⟨hfails, hempty⟩ := hsaves.effects.of_hasSurrogate rfl
    ((opens_iff_of_read read_disk).2 ⟨rfl, rfl⟩) hsurrogate
  exact ⟨_, saved, read_disk, hload, hput, hreturns, hfails, hempty, by simp [stored]⟩

end Sample

end Cache

end FunctionInventory
