import FunctionInventory.Proofs.DurableCaches
import FunctionInventory.Proofs.Utf8

/-!
# What keys tell apart

A key stands for one text: the language, a null character and the content. This tells all sources
apart whose languages have no null character. But the name of a language is not checked before its
key is made, and one with a null character moves the border: the source gets the key of another
source, whose content begins with what follows the first null character.
-/
namespace FunctionInventory

/-- The character between language and content. -/
def CodePoint.null : CodePoint := ⟨0, by decide⟩

/-- The text that a key stands for. -/
def keyText (content language : Text) : Text := language ++ CodePoint.null :: content

theorem keyBytes_eq_encode (content language : Text) :
    keyBytes content language = Text.encode (keyText content language) := by
  have hnull : CodePoint.null.encode = [0] := by decide
  rw [keyBytes, keyText, Text.encode_append, Text.encode_cons, hnull]
  rfl

theorem keyBytes_eq_iff {content language content' language' : Text} :
    keyBytes content language = keyBytes content' language' ↔
      keyText content language = keyText content' language' := by
  rw [keyBytes_eq_encode, keyBytes_eq_encode, Text.encode_injective.eq_iff]

theorem IsSupported.null_not_mem {language : Text} (h : IsSupported language) :
    CodePoint.null ∉ language := by
  obtain ⟨l, rfl⟩ := h.exists_name
  cases l <;> decide

/-- The language of the second source is that of the first one, a null character and then the
content of the first one up to another null character. -/
def Continues (source source' : Text × Text) : Prop :=
  ∃ part, source'.2 = source.2 ++ CodePoint.null :: part ∧
    source.1 = part ++ CodePoint.null :: source'.1

/-- Where one language has no null character, the other one is the same or goes on behind it. -/
theorem keyText_eq_iff_continues {source source' : Text × Text} (h : CodePoint.null ∉ source.2) :
    keyText source.1 source.2 = keyText source'.1 source'.2 ↔
      source = source' ∨ Continues source source' := by
  constructor
  · intro heq
    rcases List.append_eq_append_iff.1 heq with ⟨more, hmore, hrest⟩ | ⟨more, hmore, hrest⟩
    · cases more with
      | nil => exact .inl (Prod.ext (List.cons.inj hrest).2 (by simpa using hmore.symm))
      | cons c part =>
        obtain ⟨rfl, hcontent⟩ := List.cons.inj hrest
        exact .inr ⟨part, hmore, hcontent⟩
    · cases more with
      | nil => exact .inl (Prod.ext (List.cons.inj hrest).2.symm (by simpa using hmore))
      | cons c part =>
        obtain ⟨rfl, -⟩ := List.cons.inj hrest
        exact absurd (hmore ▸ List.mem_append_right _ List.mem_cons_self) h
  · rintro (rfl | ⟨part, hlanguage, hcontent⟩)
    · rfl
    · rw [keyText, keyText, hlanguage, hcontent]
      simp

/-- Where languages have no null character, the first one of the text is the border. -/
theorem keyText_eq_iff_of_not_mem {source source' : Text × Text} (h : CodePoint.null ∉ source.2)
    (h' : CodePoint.null ∉ source'.2) :
    keyText source.1 source.2 = keyText source'.1 source'.2 ↔ source = source' := by
  rw [keyText_eq_iff_continues h]
  apply or_iff_left
  rintro ⟨part, hlanguage, -⟩
  exact h' (hlanguage ▸ List.mem_append_right _ List.mem_cons_self)

/-- What is digested for the keys of some sources. -/
def digested (sources : Set (Text × Text)) : Set (List UInt8) :=
  (fun source => keyBytes source.1 source.2) '' sources

variable {sources : Set (Text × Text)} {source source' : Text × Text} {key key' : Text}

/-- Keys are the same exactly where the texts are that they stand for. -/
theorem key_eq_iff_keyText_eq (distinct : Set.InjOn Sha256.digest (digested sources))
    (hsource : source ∈ sources) (hsource' : source' ∈ sources)
    (hkey : contentKey source.1 source.2 = .ok key)
    (hkey' : contentKey source'.1 source'.2 = .ok key') :
    key = key' ↔ keyText source.1 source.2 = keyText source'.1 source'.2 := by
  rw [(contentKey_eq_ok_iff.1 hkey).2, (contentKey_eq_ok_iff.1 hkey').2, ← keyBytes_eq_iff]
  constructor
  · intro heq
    have hdigest := hexText_injective (ofString_injective heq)
    exact distinct (Set.mem_image_of_mem _ hsource) (Set.mem_image_of_mem _ hsource') hdigest
  · intro heq
    rw [keyOf, keyOf, heq]

namespace Cache

open MessagePack

/-- There is an answer exactly if something was put under the key asked for. -/
theorem exists_gives_get_afterPuts_iff (limits : Limits) (directory : Path) (puts : List Put)
    {content language : Text} (hkey : contentKey content language = .ok key) :
    (∃ records, Gives (get limits (afterPuts limits { directory } puts) content language)
      (.ok (some records))) ↔ ∃ p ∈ puts, p.key? limits = some key := by
  have hget := gives_get limits (afterPuts limits { directory } puts) content language
  rw [found_afterPuts, hkey] at hget
  have hlast : (lastUnder limits puts key).isSome ↔ ∃ p ∈ puts, p.key? limits = some key := by
    simp [lastUnder]
  rw [← hlast, Option.isSome_iff_exists]
  refine exists_congr fun records => ⟨fun h => ?_, fun h => ?_⟩
  · exact Except.ok.inj (hget.outcome.symm.trans h.outcome)
  · rw [← h]
    exact hget

/-- For all sources whose digests do not collide: two keys are the same if and only if the sources
have the same text of language, null character and content. Where neither language has a null
character, this says that the sources are the same; a supported language has none, so that another
source has its key only if the language of that one continues it. A cache into which results were
put in supported languages answers for another language exactly if the language continues the
source of one of them whose results were not nested too deep to be stored. -/
theorem keys_shared_iff (distinct : Set.InjOn Sha256.digest (digested sources)) :
    (∀ source ∈ sources, ∀ source' ∈ sources, ∀ key key',
      contentKey source.1 source.2 = .ok key → contentKey source'.1 source'.2 = .ok key' →
      (key = key' ↔ keyText source.1 source.2 = keyText source'.1 source'.2) ∧
      (CodePoint.null ∉ source.2 → CodePoint.null ∉ source'.2 → (key = key' ↔ source = source')) ∧
      (IsSupported source.2 → (key = key' ↔ source = source' ∨ Continues source source'))) ∧
    ∀ (limits : Limits) (directory : Path) (puts : List Put),
      (∀ p ∈ puts, (p.content, p.language) ∈ sources ∧ IsSupported p.language) →
      ∀ source ∈ sources, Text.hasSurrogate source.2 = false → ¬ IsSupported source.2 →
        ((∃ records, Gives (get limits (afterPuts limits { directory } puts) source.1 source.2)
            (.ok (some records))) ↔
          ∃ p ∈ puts, FunctionRecord.depthAll p.records ≤ limits.data ∧
            Continues (p.content, p.language) source) := by
  constructor
  · intro source hsource source' hsource' key key' hkey hkey'
    have hiff := key_eq_iff_keyText_eq distinct hsource hsource' hkey hkey'
    refine ⟨hiff, fun h h' => ?_, fun h => ?_⟩
    · rw [hiff, keyText_eq_iff_of_not_mem h h']
    · rw [hiff, keyText_eq_iff_continues h.null_not_mem]
  · intro limits directory puts hputs source hsource hencodable hother
    have hkey : contentKey source.1 source.2 = .ok (keyOf source.1 source.2) :=
      contentKey_eq_ok_iff.2 ⟨hencodable, rfl⟩
    rw [exists_gives_get_afterPuts_iff limits directory puts hkey]
    refine exists_congr fun p => and_congr_right fun hp => ?_
    obtain ⟨hknown, hsupported⟩ := hputs p hp
    have hkeyPut := contentKey_eq hsupported p.content
    have hstored : p.key? limits = some (keyOf source.1 source.2) ↔
        FunctionRecord.depthAll p.records ≤ limits.data ∧
          keyOf p.content p.language = keyOf source.1 source.2 := by
      rw [Put.key?_eq_some_iff, hkeyPut, Except.ok.injEq]
    have hne : (p.content, p.language) ≠ source := fun heq => hother (heq ▸ hsupported)
    rw [hstored, key_eq_iff_keyText_eq distinct hknown hsource hkeyPut hkey,
      keyText_eq_iff_continues hsupported.null_not_mem, or_iff_right hne]

namespace Sample

/-- A content that begins with a null character, in a supported language. -/
def nullFirst : Put := ⟨"\x00f", "typescript", []⟩

/-- The rest of the content, in a language that ends with a null character. -/
def nullLast : Text × Text := ("f", "typescript\x00")

/-- The same content in the supported language. -/
def plain : Text × Text := ("f", "typescript")

theorem not_isSupported_nullLast : ¬ IsSupported nullLast.2 := by
  unfold IsSupported
  decide

theorem continues_nullLast : Continues (nullFirst.content, nullFirst.language) nullLast :=
  ⟨[], rfl, rfl⟩

theorem keyBytes_nullLast :
    keyBytes nullFirst.content nullFirst.language = keyBytes nullLast.1 nullLast.2 := by
  decide

/-- Two sources with different contents in different languages, one of them supported and the other
one not, have one key: what was put for the one is found for the other. -/
theorem null_moves_border :
    (nullFirst.content ≠ nullLast.1 ∧ nullFirst.language ≠ nullLast.2) ∧
    (IsSupported nullFirst.language ∧ ¬ IsSupported nullLast.2) ∧
    (∃ key, contentKey nullFirst.content nullFirst.language = .ok key ∧
      contentKey nullLast.1 nullLast.2 = .ok key) ∧
    Gives (get {} (afterPuts {} { directory } [nullFirst]) nullLast.1 nullLast.2)
      (.ok (some nullFirst.records)) := by
  have hfirst : contentKey nullFirst.content nullFirst.language =
      .ok (keyOf nullFirst.content nullFirst.language) :=
    contentKey_eq (isSupported_name .typeScript) _
  have hlast : contentKey nullLast.1 nullLast.2 =
      .ok (keyOf nullFirst.content nullFirst.language) := by
    refine contentKey_eq_ok_iff.2 ⟨by decide, ?_⟩
    rw [keyOf, keyOf, keyBytes_nullLast]
  have hput : nullFirst.key? {} = some (keyOf nullFirst.content nullFirst.language) :=
    Put.key?_eq_some_iff.2 ⟨Nat.zero_le _, hfirst⟩
  refine ⟨by decide, ⟨isSupported_name .typeScript, not_isSupported_nullLast⟩,
    ⟨_, hfirst, hlast⟩, ?_⟩
  have hget := gives_get {} (afterPuts {} { directory } [nullFirst]) nullLast.1 nullLast.2
  rw [found_afterPuts, hlast] at hget
  have hfound : lastUnder {} [nullFirst] (keyOf nullFirst.content nullFirst.language) =
      some nullFirst.records :=
    lastUnder_eq_some List.mem_cons_self hput (by simp)
  rw [← hfound]
  exact hget

/-- The digests of these sources do not collide: those of the first two are the same because their
bytes are. -/
theorem digested_injOn : Set.InjOn Sha256.digest
    (digested {(nullFirst.content, nullFirst.language), nullLast, plain}) := by
  have hne : Sha256.digest (keyBytes nullLast.1 nullLast.2) ≠
      Sha256.digest (keyBytes plain.1 plain.2) := by
    decide +kernel
  rw [digested, Set.image_insert_eq, Set.image_insert_eq, Set.image_singleton, keyBytes_nullLast,
    Set.insert_eq_of_mem (Set.mem_insert _ _), Set.injOn_pair]
  exact fun h => absurd h hne

theorem keys_shared_iff_sample :
    Set.InjOn Sha256.digest
      (digested {(nullFirst.content, nullFirst.language), nullLast, plain}) ∧
    keyOf nullFirst.content nullFirst.language = keyOf nullLast.1 nullLast.2 ∧
    keyOf nullFirst.content nullFirst.language ≠ keyOf plain.1 plain.2 ∧
    ∃ records, Gives (get {} (afterPuts {} { directory } [nullFirst]) nullLast.1 nullLast.2)
      (.ok (some records)) := by
  obtain ⟨hkeys, hlookups⟩ := keys_shared_iff digested_injOn
  have hfirst : contentKey nullFirst.content nullFirst.language = .ok _ :=
    contentKey_eq (isSupported_name .typeScript) _
  have hlast : contentKey nullLast.1 nullLast.2 = .ok _ :=
    contentKey_eq_ok_iff.2 ⟨by decide, rfl⟩
  have hplain : contentKey plain.1 plain.2 = .ok _ :=
    contentKey_eq (isSupported_name .typeScript) _
  refine ⟨digested_injOn, ?_, fun heq => ?_, ?_⟩
  · exact (hkeys _ (by simp) nullLast (by simp) _ _ hfirst hlast).1.2 rfl
  · have hsame := (hkeys (nullFirst.content, nullFirst.language) (by simp) plain (by simp) _ _
      hfirst hplain).2.1 (by decide) (by decide)
    exact absurd (hsame.1 heq) (by decide)
  · refine (hlookups {} directory [nullFirst] ?_ nullLast (by simp) (by decide)
      not_isSupported_nullLast).2 ⟨nullFirst, List.mem_cons_self, Nat.zero_le _,
        continues_nullLast⟩
    rintro p hp
    obtain rfl := List.mem_singleton.1 hp
    exact ⟨by simp, isSupported_name .typeScript⟩

end Sample

end Cache

end FunctionInventory
