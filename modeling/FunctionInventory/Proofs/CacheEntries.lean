import FunctionInventory.Cache
import FunctionInventory.Language
import FunctionInventory.Proofs.Files
import FunctionInventory.Proofs.RecordRoundTrip
import Mathlib.Data.List.Basic
import Mathlib.Data.Set.Function

/-!
# What the cache holds

Keys tell contents and languages apart as far as digests do. A cache that holds nothing
but the results of analyses goes on to do so, in memory and in its file.
-/
namespace FunctionInventory

theorem ofString_injective : Function.Injective Text.ofString := by
  intro s t h
  have hchar : Function.Injective CodePoint.ofChar := by
    intro a b hab
    exact Char.toNat_inj.1 (Fin.mk.inj hab)
  exact String.toList_inj.1 (List.map_injective_iff.2 hchar h)

theorem digitChar_injective : ∀ m < 16, ∀ n < 16, Nat.digitChar m = Nat.digitChar n → m = n := by
  decide

theorem hexText_injective : Function.Injective hexText := by
  intro xs ys h
  have hlist := String.ofList_injective h
  clear h
  induction xs generalizing ys with
  | nil => cases ys <;> simp_all
  | cons x xs ih =>
    cases ys with
    | nil => simp at hlist
    | cons y ys =>
      simp only [List.flatMap_cons, List.cons_append, List.nil_append, List.cons.injEq] at hlist
      obtain ⟨hhigh, hlow, hrest⟩ := hlist
      have hx := x.toNat_lt
      have hy := y.toNat_lt
      have h₁ := digitChar_injective _ (by omega) _ (by omega) hhigh
      have h₂ := digitChar_injective _ (by omega) _ (by omega) hlow
      rw [ih hrest, UInt8.toNat_inj.1 (by omega : x.toNat = y.toNat)]

/-- The name of a language that sources are analyzed in. -/
def IsSupported (language : Text) : Prop := (Language.ofName? language).isSome

theorem IsSupported.exists_name {language : Text} (h : IsSupported language) :
    ∃ l : Language, language = l.name := by
  obtain ⟨l, hl⟩ := Option.isSome_iff_exists.1 h
  have hname : (Text.ofString l.name == language) = true :=
    List.find?_some (p := fun l : Language => Text.ofString l.name == language) hl
  exact ⟨l, (beq_iff_eq.1 hname).symm⟩

theorem isSupported_name (l : Language) : IsSupported l.name := by
  cases l <;> rfl

/-- What is digested for a key. -/
def keyBytes (content language : Text) : List UInt8 :=
  Text.encode language ++ 0 :: Text.encode content

def keyOf (content language : Text) : Text := hexText (Sha256.digest (keyBytes content language))

theorem contentKey_eq {language : Text} (h : IsSupported language) (content : Text) :
    contentKey content language = .ok (keyOf content language) := by
  obtain ⟨l, rfl⟩ := h.exists_name
  have hstrict : Text.encodeStrict? l.name = some (Text.encode l.name) := by
    cases l <;> rfl
  rw [contentKey, hstrict]
  rfl

/-- There is a key for each language whose name has bytes. -/
theorem contentKey_eq_ok_iff {content language key : Text} :
    contentKey content language = .ok key ↔
      Text.hasSurrogate language = false ∧ key = keyOf content language := by
  rw [contentKey, Text.encodeStrict?]
  by_cases h : Text.hasSurrogate language
  · simp [h]
  · simp only [h, Bool.false_eq_true, if_false, Except.ok.injEq, true_and]
    exact eq_comm

theorem encode_name_ne_null (l : Language) : ∀ b ∈ Text.encode l.name, (b != 0) = true := by
  cases l <;> decide +kernel

/-- No name of a language has the null character that ends it in a key. -/
theorem keyBytes_inj {content language content' language' : Text} (h : IsSupported language)
    (h' : IsSupported language') (heq : keyBytes content language = keyBytes content' language') :
    content = content' ∧ language = language' := by
  have hname : ∀ (l : Language) (rest : List UInt8),
      (Text.encode l.name ++ 0 :: rest).takeWhile (· != 0) = Text.encode l.name := by
    intro l rest
    rw [List.takeWhile_append_of_pos (encode_name_ne_null l),
      List.takeWhile_cons_of_neg (by decide), List.append_nil]
  obtain ⟨l, rfl⟩ := h.exists_name
  obtain ⟨l', rfl⟩ := h'.exists_name
  have hencode := congrArg (List.takeWhile (· != 0)) heq
  rw [keyBytes, keyBytes, hname, hname] at hencode
  rw [keyBytes, keyBytes, hencode, List.append_cancel_left_eq, List.cons.injEq] at heq
  exact ⟨Text.encode_injective heq.2, Text.encode_injective hencode⟩

/-- Where digests tell sources apart, keys do. -/
theorem eq_of_keyOf_eq {source source' : Text × Text} (h : IsSupported source.2)
    (h' : IsSupported source'.2)
    (distinct : Sha256.digest (keyBytes source.1 source.2) =
        Sha256.digest (keyBytes source'.1 source'.2) →
      keyBytes source.1 source.2 = keyBytes source'.1 source'.2)
    (hkey : keyOf source.1 source.2 = keyOf source'.1 source'.2) : source = source' := by
  have hdigest := hexText_injective (ofString_injective hkey)
  obtain ⟨hcontent, hlanguage⟩ := keyBytes_inj h h' (distinct hdigest)
  exact Prod.ext hcontent hlanguage

/-- Every entry is the data of the analysis of a known content and language, under their
key, and no key comes twice. -/
structure HoldsAnalyses (analysis : Text → Text → List FunctionRecord) (known : Set (Text × Text))
    (entries : List (Value × Value)) : Prop where
  entry : ∀ m ∈ entries, ∃ content language, (content, language) ∈ known ∧
    m = (.text (keyOf content language),
      .list (FunctionRecord.toValues .camelCase (analysis content language)))
  distinct : entries.Pairwise fun m n => m.1 ≠ n.1

variable {analysis : Text → Text → List FunctionRecord} {known : Set (Text × Text)}
  {entries : List (Value × Value)} {content language : Text}

theorem holdsAnalyses_nil : HoldsAnalyses analysis known [] := ⟨by simp, .nil⟩

theorem sameKey_text_iff {k : Value} {t : Text} :
    Value.sameKey k (.text t) = true ↔ k = .text t := by
  cases k <;> simp [Value.sameKey, Value.scaled?]

theorem mem_put {t : Text} {v : Value} {m : Value × Value}
    (hm : m ∈ Value.put (.text t) v entries) : m ∈ entries ∨ m = (.text t, v) := by
  induction entries with
  | nil => exact .inr (by simpa [Value.put] using hm)
  | cons e entries ih =>
    obtain ⟨k, w⟩ := e
    rw [Value.put] at hm
    split at hm
    · next hsame =>
      obtain rfl : k = .text t := sameKey_text_iff.1 hsame
      rcases List.mem_cons.1 hm with rfl | hm
      · exact .inr rfl
      · exact .inl (List.mem_cons_of_mem _ hm)
    · rcases List.mem_cons.1 hm with rfl | hm
      · exact .inl List.mem_cons_self
      · exact (ih hm).imp_left (List.mem_cons_of_mem _)

theorem pairwise_put {t : Text} {v : Value} (distinct : entries.Pairwise fun m n => m.1 ≠ n.1) :
    (Value.put (.text t) v entries).Pairwise fun m n => m.1 ≠ n.1 := by
  induction entries with
  | nil => simp [Value.put]
  | cons e entries ih =>
    obtain ⟨hfirst, hrest⟩ := List.pairwise_cons.1 distinct
    obtain ⟨k, w⟩ := e
    rw [Value.put]
    split
    · exact List.pairwise_cons.2 ⟨hfirst, hrest⟩
    · next hsame =>
      refine List.pairwise_cons.2 ⟨fun m hm => ?_, ih hrest⟩
      rcases mem_put hm with hm | rfl
      · exact hfirst m hm
      · exact fun heq => hsame (sameKey_text_iff.2 heq)

namespace HoldsAnalyses

theorem keys (h : HoldsAnalyses analysis known entries) : ∀ m ∈ entries, ∃ u, m.1 = .text u := by
  intro m hm
  obtain ⟨content, language, -, rfl⟩ := h.entry m hm
  exact ⟨_, rfl⟩

theorem mono (h : HoldsAnalyses analysis known entries) {known' : Set (Text × Text)}
    (hsub : known ⊆ known') : HoldsAnalyses analysis known' entries where
  entry := by
    intro m hm
    obtain ⟨content, language, hknown, rfl⟩ := h.entry m hm
    exact ⟨content, language, hsub hknown, rfl⟩
  distinct := h.distinct

theorem put (h : HoldsAnalyses analysis known entries) (hknown : (content, language) ∈ known) :
    HoldsAnalyses analysis known (Value.put (.text (keyOf content language))
      (.list (FunctionRecord.toValues .camelCase (analysis content language))) entries) where
  entry := by
    intro m hm
    rcases mem_put hm with hm | rfl
    · exact h.entry m hm
    · exact ⟨content, language, hknown, rfl⟩
  distinct := pairwise_put h.distinct

/-- An entry that is found is that of the content and language it was asked for. -/
theorem find? (h : HoldsAnalyses analysis known entries)
    (alone : ∀ k ∈ known, keyOf k.1 k.2 = keyOf content language → k = (content, language))
    {v : Value} (hv : Value.find? (.text (keyOf content language)) entries = some v) :
    v = .list (FunctionRecord.toValues .camelCase (analysis content language)) := by
  obtain ⟨m, hm, rfl⟩ := Option.map_eq_some_iff.1 hv
  obtain ⟨content', language', hknown', rfl⟩ := h.entry m (List.mem_of_find?_eq_some hm)
  have hkey : keyOf content' language' = keyOf content language := by
    simpa [MessagePack.sameKey_text] using List.find?_some hm
  obtain ⟨rfl, rfl⟩ := Prod.mk.inj (alone _ hknown' hkey)
  rfl

theorem plain (h : HoldsAnalyses analysis known entries) : MessagePack.Plain (.map entries) := by
  refine .map h.keys h.distinct fun m hm => ?_
  obtain ⟨content, language, -, rfl⟩ := h.entry m hm
  exact FunctionRecord.plain_toValues _

end HoldsAnalyses

namespace Cache

/-- What looking up gives. -/
def found (limits : Limits) (c : Cache) (content language : Text) :
    Except EncodingError (Option (List FunctionRecord)) :=
  (contentKey content language).map fun key =>
    (Value.find? (.text key) c.entries).bind (recordsOf? limits)

theorem gives_get (limits : Limits) (c : Cache) (content language : Text) :
    Gives (c.get limits content language) (c.found limits content language) := by
  unfold get found
  cases hkey : contentKey content language with
  | error e => exact (gives_except _).bind_error
  | ok key =>
    refine (gives_except _).bind_ok ?_
    rw [Except.map]
    generalize Value.find? (.text key) c.entries = entry
    split
    · exact gives_pure none
    · exact gives_pure none
    · next entry _ =>
      rw [Option.bind_some]
      cases recordsOf? limits entry with
      | some records => exact gives_pure (some records)
      | none => exact (gives_logged (Logged.returns_unit _)).bind_ok (gives_pure none)

/-- Looking up finds nothing or the analysis, and this only if it is not nested too deep. -/
theorem exists_found (limits : Limits) {c : Cache} (h : HoldsAnalyses analysis known c.entries)
    (alone : ∀ k ∈ known, keyOf k.1 k.2 = keyOf content language → k = (content, language))
    (hlanguage : IsSupported language) :
    ∃ records, c.found limits content language = .ok records ∧
      ∀ found ∈ records, found = analysis content language ∧
        FunctionRecord.depthAll found ≤ limits.data := by
  rw [found, contentKey_eq hlanguage]
  refine ⟨_, rfl, fun records hrecords => ?_⟩
  obtain ⟨v, hv, hrecords⟩ := Option.bind_eq_some_iff.1 hrecords
  obtain rfl := h.find? alone hv
  obtain ⟨rfl, hdepth⟩ := recordsOf?_toValues_eq_some_iff.1 hrecords
  exact ⟨rfl, hdepth⟩

/-- Records that are not nested too deep are stored under the key of their source. -/
theorem put_eq_ok_iff {limits : Limits} {c c' : Cache} {records : List FunctionRecord} :
    c.put limits content language records = .ok c' ↔
      FunctionRecord.depthAll records ≤ limits.data ∧
        ∃ key, contentKey content language = .ok key ∧ c' = { c with
          entries := Value.put (.text key) (.list (FunctionRecord.toValues .camelCase records))
            c.entries
          dirty := true } := by
  unfold put
  rcases Nat.lt_or_ge limits.data (FunctionRecord.depthAll records) with hdeep | hdepth
  · rw [FunctionRecord.dumpAll_eq_error .camelCase hdeep]
    simp [Except.mapError, bind, Except.bind, Nat.not_le_of_gt hdeep]
  · rw [FunctionRecord.dumpAll_eq_ok .camelCase hdepth]
    cases hkey : contentKey content language with
    | error e => simp [Except.mapError, bind, Except.bind]
    | ok key => simp [Except.mapError, bind, Except.bind, pure, Except.pure, hdepth, eq_comm]

theorem put_eq_ok {limits : Limits} (hlanguage : IsSupported language) (c : Cache)
    {records : List FunctionRecord} (hdepth : FunctionRecord.depthAll records ≤ limits.data) :
    c.put limits content language records = .ok { c with
      entries := Value.put (.text (keyOf content language))
        (.list (FunctionRecord.toValues .camelCase records)) c.entries
      dirty := true } :=
  put_eq_ok_iff.2 ⟨hdepth, _, contentKey_eq hlanguage content, rfl⟩

/-- Records that are nested too deep are not stored, whatever their source is. -/
theorem put_of_deep {limits : Limits} {records : List FunctionRecord}
    (h : limits.data < FunctionRecord.depthAll records) (c : Cache) (content language : Text) :
    c.put limits content language records = .error (.nesting .data) := by
  unfold put
  rw [FunctionRecord.dumpAll_eq_error .camelCase h]
  rfl

theorem plain_toValue {c : Cache} (h : MessagePack.Plain (.map c.entries)) :
    MessagePack.Plain c.toValue := by
  refine plain_object (by simp only [List.map_cons, List.map_nil]; decide) ?_
  simp [h, MessagePack.Plain.text]

theorem contentOf_write {limits : Limits} {c : Cache} (h : MessagePack.Plain (.map c.entries))
    {bytes : List UInt8} (hw : c.encode limits = .ok bytes) :
    contentOf bytes = .current c.entries := by
  rw [contentOf, (plain_toValue h).read?_write hw]
  rfl

theorem contentOf_take {limits : Limits} {c : Cache} (h : MessagePack.Plain (.map c.entries))
    {bytes : List UInt8} (hw : c.encode limits = .ok bytes) {n : Nat} (hn : n < bytes.length) :
    contentOf (bytes.take n) = .damaged := by
  rw [contentOf, (plain_toValue h).read?_take hw hn]

open Logged

/-- What loading gives. -/
def loadedUnder (refusals : Refusals) (c : Cache) (disk : FileSystem) : Except ReadError Cache :=
  if disk.pathExists c.path then
    (readUnder refusals.reading disk c.path).map fun bytes => match contentOf bytes with
      | .outdated => c
      | .damaged => { c with entries := [] }
      | .current entries => { c with entries }
  else .ok c

/-- What loading gives where the system refuses nothing. -/
def loaded (c : Cache) (disk : FileSystem) : Except ReadError Cache := loadedUnder {} c disk

theorem gives_loadUnder (refusals : Refusals) (c : Cache) (disk : FileSystem) :
    Gives (c.loadUnder refusals disk) (c.loadedUnder refusals disk) := by
  unfold loadUnder loadedUnder
  cases hexists : disk.pathExists c.path with
  | false => exact gives_pure c
  | true =>
    cases hread : readUnder refusals.reading disk c.path with
    | error e => exact (gives_except _).bind_error
    | ok bytes =>
      refine (gives_except _).bind_ok ?_
      rw [if_pos rfl, Except.map]
      cases contentOf bytes with
      | outdated => exact (gives_logged (returns_unit _)).bind_ok (gives_pure _)
      | damaged => exact (gives_logged (returns_unit _)).bind_ok (gives_pure _)
      | current entries => exact (gives_logged (returns_unit _)).bind_ok (gives_pure _)

theorem gives_load (c : Cache) (disk : FileSystem) : Gives (c.load disk) (c.loaded disk) :=
  gives_loadUnder {} c disk

theorem readUnder_eq_ok_iff {refusal : Option Text} {disk : FileSystem} {p : Path}
    {bytes : List UInt8} :
    readUnder refusal disk p = .ok bytes ↔ refusal = none ∧ disk.read p = .ok bytes := by
  cases refusal with
  | none => simp [readUnder, mapError_eq_ok_iff]
  | some message => simp [readUnder]

/-- Loading takes over what the file holds. -/
theorem loaded_of_read {c : Cache} {disk : FileSystem} {bytes : List UInt8}
    (h : disk.read c.path = .ok bytes) :
    c.loaded disk = .ok (match contentOf bytes with
      | .outdated => c
      | .damaged => { c with entries := [] }
      | .current entries => { c with entries }) := by
  rw [loaded, loadedUnder, if_pos (FileSystem.pathExists_of_read h),
    readUnder_eq_ok_iff.2 ⟨rfl, h⟩]
  rfl

/-- What is loaded under refusals is what is loaded without any. -/
theorem loaded_of_loadedUnder {refusals : Refusals} {c c' : Cache} {disk : FileSystem}
    (h : c.loadedUnder refusals disk = .ok c') : c.loaded disk = .ok c' := by
  unfold loaded
  unfold loadedUnder at h ⊢
  split at h
  · next hexists =>
    obtain ⟨bytes, hread, hcontent⟩ := map_eq_ok_iff.1 h
    obtain ⟨-, hread⟩ := readUnder_eq_ok_iff.1 hread
    rw [if_pos hexists]
    exact map_eq_ok_iff.2 ⟨bytes, readUnder_eq_ok_iff.2 ⟨rfl, hread⟩, hcontent⟩
  · next hnone =>
    rw [if_neg hnone]
    exact h

theorem attempt_eq_ok_iff {refusal : Option Text} {r : Except FileError FileSystem}
    {disk : FileSystem} : attempt refusal r = .ok disk ↔ refusal = none ∧ r = .ok disk := by
  cases refusal <;> cases r <;> simp [attempt, Except.mapError]

theorem attempt_none_eq_error_iff {r : Except FileError FileSystem} {message : Text} :
    attempt none r = .error message ↔ ∃ e, r = .error e ∧ e.message = message := by
  cases r <;> simp [attempt, Except.mapError]

/-- How saving ends: nothing is to be written, or it stops at the directory, at opening the
file, at the entries or at writing, or the file is written. -/
inductive SavesAs (limits : Limits) (refusals : Refusals) (c : Cache) (disk : FileSystem) :
    Saved → Prop
  | unchanged (clean : c.dirty = false) : SavesAs limits refusals c disk ⟨c, disk, none⟩
  | noDirectory {message : Text} (dirty : c.dirty = true)
      (hmade : attempt refusals.directory (disk.makeDirectories c.directory) = .error message) :
      SavesAs limits refusals c disk ⟨c, disk, none⟩
  | unopened {made : FileSystem} {message : Text} (dirty : c.dirty = true)
      (hmade : attempt refusals.directory (disk.makeDirectories c.directory) = .ok made)
      (hempty : attempt refusals.opening (made.write c.path []) = .error message) :
      SavesAs limits refusals c disk ⟨c, made, none⟩
  | unwritable {made emptied : FileSystem} {e : MessagePack.Unwritable} (dirty : c.dirty = true)
      (hmade : attempt refusals.directory (disk.makeDirectories c.directory) = .ok made)
      (hempty : attempt refusals.opening (made.write c.path []) = .ok emptied)
      (hbytes : c.encode limits = .error e) :
      SavesAs limits refusals c disk ⟨c, emptied, some e⟩
  | unwritten {made emptied : FileSystem} {bytes : List UInt8} {message : Text}
      (dirty : c.dirty = true)
      (hmade : attempt refusals.directory (disk.makeDirectories c.directory) = .ok made)
      (hempty : attempt refusals.opening (made.write c.path []) = .ok emptied)
      (hbytes : c.encode limits = .ok bytes)
      (hfull : attempt refusals.writing (emptied.write c.path bytes) = .error message) :
      SavesAs limits refusals c disk ⟨c, emptied, none⟩
  | written {made emptied full : FileSystem} {bytes : List UInt8} (dirty : c.dirty = true)
      (hmade : attempt refusals.directory (disk.makeDirectories c.directory) = .ok made)
      (hempty : attempt refusals.opening (made.write c.path []) = .ok emptied)
      (hbytes : c.encode limits = .ok bytes)
      (hfull : attempt refusals.writing (emptied.write c.path bytes) = .ok full) :
      SavesAs limits refusals c disk ⟨{ c with dirty := false }, full, none⟩

theorem exists_returns_saveUnder (limits : Limits) (refusals : Refusals) (c : Cache)
    (disk : FileSystem) :
    ∃ saved, Returns (c.saveUnder limits refusals disk) saved ∧
      SavesAs limits refusals c disk saved := by
  unfold saveUnder
  dsimp only
  split
  · next clean => exact ⟨_, returns_pure _, .unchanged (by simpa using clean)⟩
  · next hdirty =>
    have dirty : c.dirty = true := by simpa using hdirty
    split
    · next hmade =>
      exact ⟨_, (returns_unit _).bind (returns_pure _), .noDirectory dirty hmade⟩
    · next hmade =>
      split
      · next hempty =>
        exact ⟨_, (returns_unit _).bind (returns_pure _), .unopened dirty hmade hempty⟩
      · next hempty =>
        split
        · next hbytes => exact ⟨_, returns_pure _, .unwritable dirty hmade hempty hbytes⟩
        · next hbytes =>
          split
          · next hfull =>
            exact ⟨_, (returns_unit _).bind (returns_pure _),
              .unwritten dirty hmade hempty hbytes hfull⟩
          · next hfull =>
            exact ⟨_, (returns_unit _).bind (returns_pure _),
              .written dirty hmade hempty hbytes hfull⟩

/-- What saving leaves: a file tree as it was, one where the file cannot be written, one
with an empty file, or one with the file of the entries. -/
theorem exists_returns_save (limits : Limits) (c : Cache) (disk : FileSystem) :
    ∃ saved, Returns (c.save limits disk) saved ∧
      saved.cache.directory = c.directory ∧ saved.cache.entries = c.entries ∧
      (saved.disk = disk ∨
        (disk.makeDirectories c.directory = .ok saved.disk ∧
          ∃ e, saved.disk.write c.path [] = .error e) ∨
        ∃ (made : FileSystem) (bytes : List UInt8), made.write c.path bytes = .ok saved.disk ∧
          (bytes = [] ∨ c.encode limits = .ok bytes)) := by
  obtain ⟨saved, hreturns, hsaves⟩ := exists_returns_saveUnder limits {} c disk
  refine ⟨saved, hreturns, ?_⟩
  cases hsaves with
  | unchanged | noDirectory => exact ⟨rfl, rfl, .inl rfl⟩
  | unopened _ hmade hempty =>
    obtain ⟨e, he, -⟩ := attempt_none_eq_error_iff.1 hempty
    exact ⟨rfl, rfl, .inr (.inl ⟨(attempt_eq_ok_iff.1 hmade).2, e, he⟩)⟩
  | unwritable _ _ hempty | unwritten _ _ hempty =>
    exact ⟨rfl, rfl, .inr (.inr ⟨_, [], (attempt_eq_ok_iff.1 hempty).2, .inl rfl⟩)⟩
  | written _ _ _ hbytes hfull =>
    exact ⟨rfl, rfl, .inr (.inr ⟨_, _, (attempt_eq_ok_iff.1 hfull).2, .inr hbytes⟩)⟩

end Cache

end FunctionInventory
