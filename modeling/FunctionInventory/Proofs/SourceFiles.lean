import FunctionInventory.Proofs.Inventory
import FunctionInventory.Proofs.PathTexts

/-!
# The source files that are loaded

A directory stands for the files below it that have a suffix of a language and no excluded name
on the way to them. They come in the order of their paths, each once, in whatever order the
entries of the directory are found. What is chosen by the suffix here and what the suffix of the
path tells later are the same language.
-/
namespace FunctionInventory

open Logged

namespace FileTree

/-- The names that entries of directories have. -/
@[mk_iff] structure IsName (name : Text) : Prop extends Path.IsPart name where
  ne_above : name ≠ FileSystem.above

instance : DecidablePred IsName := fun name => decidable_of_iff' _ (isName_iff name)

/-- In each directory the entries have names, and different ones. -/
inductive Sound : FileTree → Prop
  | file (bytes : List UInt8) : Sound (.file bytes)
  | directory {entries : List (Text × FileTree)} (names : ∀ e ∈ entries, IsName e.1)
      (distinct : (entries.map (·.1)).Nodup) (inner : ∀ e ∈ entries, Sound e.2) :
      Sound (.directory entries)

theorem mem_of_child? {name : Text} {entries : List (Text × FileTree)} {sub : FileTree}
    (h : child? name entries = some sub) : (name, sub) ∈ entries := by
  obtain ⟨e, he, rfl⟩ := Option.map_eq_some_iff.1 h
  have hname : e.1 = name := by simpa using List.find?_some he
  rw [← hname]
  exact List.mem_of_find?_eq_some he

theorem child?_eq_some_iff {name : Text} {entries : List (Text × FileTree)} {sub : FileTree}
    (distinct : (entries.map (·.1)).Nodup) :
    child? name entries = some sub ↔ (name, sub) ∈ entries := by
  refine ⟨mem_of_child?, fun h => ?_⟩
  have hfound : (child? name entries).isSome := by
    simp only [child?, Option.isSome_map, List.find?_isSome, decide_eq_true_eq]
    exact ⟨_, h, rfl⟩
  obtain ⟨found, hchild⟩ := Option.isSome_iff_exists.1 hfound
  have heq : (name, found) = (name, sub) :=
    List.inj_on_of_nodup_map distinct (mem_of_child? hchild) h rfl
  rw [hchild, (Prod.mk.inj heq).2]

theorem descendantsOf_eq_flatMap (names : List Text) (entries : List (Text × FileTree)) :
    descendantsOf names entries = entries.flatMap fun e =>
      (names ++ [e.1], e.2) :: descendants (names ++ [e.1]) e.2 := by
  induction entries with
  | nil => rfl
  | cons e entries ih =>
    rw [descendantsOf, ih]
    rfl

/-- The entries below a tree are what its chains of names lead to. -/
theorem mem_descendants {t : FileTree} (h : t.Sound) {names found : List Text} {sub : FileTree} :
    (found, sub) ∈ t.descendants names ↔
      ∃ name chain, found = names ++ name :: chain ∧ t.get? (name :: chain) = some sub := by
  induction h generalizing names with
  | file bytes => simp [descendants, get?]
  | @directory entries _ distinct _ ih =>
    rw [descendants, descendantsOf_eq_flatMap, List.mem_flatMap]
    simp only [get?, Option.bind_eq_some_iff, child?_eq_some_iff distinct]
    constructor
    · rintro ⟨⟨name, inner⟩, he, hmem⟩
      rcases List.mem_cons.1 hmem with hself | hbelow
      · cases hself
        exact ⟨name, [], rfl, inner, he, get?_nil inner⟩
      · obtain ⟨next, chain, rfl, hget⟩ := (ih _ he).1 hbelow
        exact ⟨name, next :: chain, by simp, inner, he, hget⟩
    · rintro ⟨name, chain, rfl, inner, he, hget⟩
      refine ⟨_, he, List.mem_cons.2 ?_⟩
      cases chain with
      | nil =>
        rw [get?_nil] at hget
        cases hget
        exact .inl rfl
      | cons next chain => exact .inr ((ih _ he).2 ⟨next, chain, by simp, hget⟩)

theorem exists_chain_of_descendant {t : FileTree} (h : t.Sound) {names found : List Text}
    (hfound : found ∈ (t.descendants names).map (·.1)) :
    ∃ name chain, found = names ++ name :: chain := by
  obtain ⟨⟨_, sub⟩, hmem, rfl⟩ := List.mem_map.1 hfound
  obtain ⟨name, chain, heq, -⟩ := (mem_descendants h).1 hmem
  exact ⟨name, chain, heq⟩

/-- No entry is listed twice: entries of one directory differ in its name for them. -/
theorem nodup_descendants {t : FileTree} (h : t.Sound) (names : List Text) :
    ((t.descendants names).map (·.1)).Nodup := by
  induction h generalizing names with
  | file bytes => simp [descendants]
  | @directory entries _ distinct inner ih =>
    rw [descendants, descendantsOf_eq_flatMap, List.map_flatMap, List.nodup_flatMap]
    constructor
    · intro e he
      rw [List.map_cons, List.nodup_cons]
      refine ⟨fun hself => ?_, ih e he _⟩
      obtain ⟨name, chain, heq⟩ := exists_chain_of_descendant (inner e he) hself
      simp at heq
    · have hstart : ∀ e ∈ entries, ∀ found ∈ ((names ++ [e.1], e.2) ::
          e.2.descendants (names ++ [e.1])).map (·.1), ∃ chain, found = names ++ e.1 :: chain := by
        intro e he found hfound
        rcases List.mem_cons.1 hfound with rfl | hfound
        · exact ⟨[], rfl⟩
        · obtain ⟨name, chain, rfl⟩ := exists_chain_of_descendant (inner e he) hfound
          exact ⟨name :: chain, by simp⟩
      refine (List.pairwise_map.1 distinct).imp_of_mem fun {e e'} he he' hne => ?_
      intro found hfound hfound'
      obtain ⟨chain, rfl⟩ := hstart e he found hfound
      obtain ⟨chain', heq⟩ := hstart e' he' _ hfound'
      exact hne (List.cons.inj (List.append_cancel_left heq)).1

/-- A list of the entries below a tree, each once, in any order. -/
structure Enumerates (t : FileTree) (found : List (List Text × FileTree)) : Prop where
  once : (found.map (·.1)).Nodup
  mem_iff : ∀ names sub, (names, sub) ∈ found ↔ names ≠ [] ∧ t.get? names = some sub

theorem Sound.enumerates {t : FileTree} (h : t.Sound) : t.Enumerates (t.descendants []) where
  once := nodup_descendants h []
  mem_iff := by
    intro names sub
    rw [mem_descendants h]
    cases names <;> simp

theorem Sound.get? {t : FileTree} (h : t.Sound) {names : List Text} {sub : FileTree}
    (hget : t.get? names = some sub) : sub.Sound ∧ ∀ name ∈ names, IsName name := by
  induction names generalizing t with
  | nil =>
    rw [get?_nil] at hget
    cases hget
    exact ⟨h, by simp⟩
  | cons name names ih =>
    cases h with
    | file bytes => cases hget
    | directory hnames _ inner =>
      obtain ⟨next, hchild, hget⟩ := Option.bind_eq_some_iff.1 hget
      have hmem := mem_of_child? hchild
      obtain ⟨hsub, hrest⟩ := ih (inner _ hmem) hget
      exact ⟨hsub, List.forall_mem_cons.2 ⟨hnames _ hmem, hrest⟩⟩

end FileTree

namespace FileSystem

variable {s : FileSystem} {p : Path} {sub : FileTree}

theorem status_eq_ok_iff : s.status p = .ok sub ↔
    ∃ names, s.locate p.root p.parts = .ok names ∧ s.tree.get? names = some sub := by
  unfold status
  cases s.locate p.root p.parts with
  | error fault => simp
  | ok names => cases hget : s.tree.get? names <;> simp [hget]

theorem isDirectory_iff : s.isDirectory p = true ↔
    ∃ entries, s.status p = .ok (.directory entries) := by
  unfold isDirectory
  split <;> simp_all

/-- A chain of names leads on from where a path leads. -/
theorem locate_below (hs : s.tree.Sound) {names found : List Text} {inner : FileTree}
    (hlocate : s.locate p.root p.parts = .ok names)
    (hget : s.tree.get? (names ++ found) = some inner) :
    s.locate (p.below found).root (p.below found).parts = .ok (names ++ found) := by
  induction found using List.reverseRecOn generalizing inner with
  | nil => simpa [Path.below] using hlocate
  | append_singleton found last ih =>
    have hlast : FileTree.IsName last := (hs.get? hget).2 last (by simp)
    rw [← List.append_assoc, FileTree.get?_append] at hget
    obtain ⟨outer, houter, hget⟩ := Option.bind_eq_some_iff.1 hget
    obtain ⟨entries, rfl⟩ : ∃ entries, outer = .directory entries := by
      cases outer with
      | file bytes => cases hget
      | directory entries => exact ⟨entries, rfl⟩
    obtain ⟨child, hchild, -⟩ := Option.bind_eq_some_iff.1 hget
    have hfollow : s.follow (names ++ found) last = .ok (names ++ found ++ [last]) :=
      follow_eq_ok_iff.2 ⟨entries, houter, .inr ⟨hlast.ne_above, by rw [hchild]; rfl, rfl⟩⟩
    rw [Path.parts_below, ← List.append_assoc, ← List.append_assoc]
    exact locate_append_singleton.2 ⟨_, ih houter, hfollow⟩

/-- A file below a directory is read by the path that leads to it. -/
theorem read_below (hs : s.tree.Sound) (hstatus : s.status p = .ok sub) {names : List Text}
    {bytes : List UInt8} (hget : sub.get? names = some (.file bytes)) :
    s.read (p.below names) = .ok bytes := by
  obtain ⟨before, hlocate, hsub⟩ := status_eq_ok_iff.1 hstatus
  have hfile : s.tree.get? (before ++ names) = some (.file bytes) := by
    rw [FileTree.get?_append, hsub, Option.bind_some, hget]
  exact read_eq_ok_iff.2 ⟨_, locate_below hs hlocate hfile, hfile⟩

end FileSystem

namespace Language

/-- The table of suffixes has a language for a suffix, in whatever case it is written. -/
def IsListed (suffix : Text) (l : Language) : Prop :=
  ∃ s, (s, l) ∈ suffixes ∧ Text.ofString s = suffix.map CodePoint.toLower

theorem isListed_of_ofSuffix? {suffix : Text} {l : Language} (h : ofSuffix? suffix = some l) :
    IsListed suffix l := by
  obtain ⟨⟨s, l⟩, hfind, rfl⟩ := Option.map_eq_some_iff.1 h
  exact ⟨s, List.mem_of_find?_eq_some hfind, by simpa using List.find?_some hfind⟩

theorem ofSuffix?_isSome_iff {suffix : Text} :
    (ofSuffix? suffix).isSome = true ↔ ∃ l, IsListed suffix l := by
  constructor
  · intro h
    obtain ⟨l, hl⟩ := Option.isSome_iff_exists.1 h
    exact ⟨l, isListed_of_ofSuffix? hl⟩
  · rintro ⟨l, s, hmem, heq⟩
    simp only [ofSuffix?, Option.isSome_map, List.find?_isSome]
    exact ⟨_, hmem, by simpa using heq⟩

/-- Where the table has the suffix of a path, the path has a language of the table. -/
theorem isListed_ofPath {p : Path} (h : ∃ l, IsListed p.suffix l) :
    IsListed p.suffix (ofPath p) := by
  obtain ⟨l, hl⟩ := Option.isSome_iff_exists.1 (ofSuffix?_isSome_iff.2 h)
  rw [ofPath, hl]
  exact isListed_of_ofSuffix? hl

/-- A name ends in a suffix of the table, in whatever case it is written, with something before
it. -/
def IsSourceName (name : Text) (l : Language) : Prop :=
  ∃ stem ending s, name = stem ++ ending ∧ stem ≠ [] ∧ (s, l) ∈ suffixes ∧
    ending.map CodePoint.toLower = Text.ofString s

/-- The suffixes of the table have one dot, which comes first, and more behind it. -/
theorem exists_suffix_eq {s : String} {l : Language} (h : (s, l) ∈ suffixes) :
    ∃ ending, Text.ofString s = Path.dot :: ending ∧ ending ≠ [] ∧ Path.dot ∉ ending := by
  have hall : ∀ e ∈ suffixes, Text.ofString e.1 = Path.dot :: (Text.ofString e.1).tail ∧
      (Text.ofString e.1).tail ≠ [] ∧ Path.dot ∉ (Text.ofString e.1).tail := by
    decide +kernel
  exact ⟨_, hall _ h⟩

theorem toLower_eq_dot_iff {c : CodePoint} : c.toLower = Path.dot ↔ c = Path.dot := by
  have hdot : Path.dot.val = 46 := rfl
  unfold CodePoint.toLower
  split
  · rw [Fin.ext_iff, Fin.ext_iff, hdot]
    dsimp only
    omega
  · rfl

/-- For suffixes of the table only the end of the name counts. -/
theorem isListed_suffix_iff {p : Path} {l : Language} : IsListed p.suffix l ↔
    IsSourceName p.name l := by
  constructor
  · rintro ⟨s, hmem, heq⟩
    obtain ⟨rest, hs, -, -⟩ := exists_suffix_eq hmem
    rcases p.suffix_eq_nil_or_cons with hnil | ⟨ending, hending⟩
    · rw [hs, hnil] at heq
      cases heq
    · obtain ⟨-, -, stem, hstem, hname⟩ := Path.suffix_eq_cons_iff.1 hending
      exact ⟨stem, _, s, hname, hstem, hmem, by rw [← hending, heq]⟩
  · rintro ⟨stem, ending, s, hname, hstem, hmem, heq⟩
    obtain ⟨rest, hs, hne, hdot⟩ := exists_suffix_eq hmem
    rw [hs] at heq
    obtain ⟨c, ending, rfl, hc, hrest⟩ := List.map_eq_cons_iff.1 heq
    obtain rfl := toLower_eq_dot_iff.1 hc
    have hending : ending ≠ [] := by
      rintro rfl
      exact hne hrest.symm
    have hlast : Path.dot ∉ ending := fun h =>
      hdot (hrest ▸ List.mem_map.2 ⟨_, h, toLower_eq_dot_iff.2 rfl⟩)
    refine ⟨s, hmem, ?_⟩
    rw [Path.suffix_eq_cons_iff.2 ⟨hending, hlast, stem, hstem, hname⟩, hs, heq]

end Language

namespace Loading

theorem isWanted_iff {exclude names : List Text} : isWanted exclude names = true ↔
    (∃ l, Language.IsListed (Path.suffix ⟨[], names⟩) l) ∧ ∀ name ∈ names, name ∉ exclude := by
  rw [isWanted, Bool.and_eq_true, Language.ofSuffix?_isSome_iff]
  simp

theorem mem_selected {exclude : List Text} {p q : Path} {found : List (List Text × FileTree)} :
    q ∈ selected exclude p found ↔ ∃ names bytes, (names, .file bytes) ∈ found ∧
      isWanted exclude names = true ∧ p.below names = q := by
  simp only [selected, List.mem_mergeSort, List.mem_map, List.mem_filter, Bool.and_eq_true]
  constructor
  · rintro ⟨⟨names, t⟩, ⟨hfound, hfile, hwanted⟩, rfl⟩
    cases t with
    | file bytes => exact ⟨names, bytes, hfound, hwanted, rfl⟩
    | directory entries => cases hfile
  · rintro ⟨names, bytes, hfound, hwanted, rfl⟩
    exact ⟨_, ⟨hfound, rfl, hwanted⟩, rfl⟩

/-- What is selected increases strictly if no entry was found twice. -/
theorem pairwise_selected (exclude : List Text) (p : Path) {found : List (List Text × FileTree)}
    (once : (found.map (·.1)).Nodup) :
    (selected exclude p found).Pairwise fun q q' => q.parts < q'.parts := by
  have hsorted : (selected exclude p found).Pairwise fun q q' => q.parts ≤ q'.parts := by
    refine (List.pairwise_mergeSort ?_ ?_ _).imp fun h => Path.not_lt_iff_le.1 h
    · intro a b c hab hbc
      exact Path.not_lt_iff_le.2 ((Path.not_lt_iff_le.1 hab).trans (Path.not_lt_iff_le.1 hbc))
    · intro a b
      rw [Bool.or_eq_true, Path.not_lt_iff_le, Path.not_lt_iff_le]
      exact le_total _ _
  have hdistinct : (selected exclude p found).Pairwise fun q q' => q.parts ≠ q'.parts := by
    refine (List.mergeSort_perm _ _).symm.pairwise ?_ fun h => h.symm
    rw [List.pairwise_map]
    refine ((List.pairwise_map.1 once).filter _).imp fun hne heq => ?_
    exact hne (List.append_cancel_left heq)
  exact (hsorted.and hdistinct).imp fun h => lt_of_le_of_ne h.1 h.2

/-- The order in which entries are found does not matter. -/
theorem selected_eq_of_enumerates (exclude : List Text) (p : Path) {t : FileTree}
    {found found' : List (List Text × FileTree)} (h : t.Enumerates found)
    (h' : t.Enumerates found') : selected exclude p found = selected exclude p found' := by
  refine Path.eq_of_increasing (pairwise_selected exclude p h.once)
    (pairwise_selected exclude p h'.once) ?_
  intro q
  simp only [mem_selected, h.mem_iff, h'.mem_iff]

/-- What one argument contributes. -/
def loadedFor (unreadable : Path → Option Text) (disk : FileSystem) (exclude : List Text)
    (t : Text) : List LoadedFile :=
  (expanded disk exclude (.ofText t)).map (loadedAs unreadable disk)

/-- What a file is loaded as, where `refusal` is the message of a system that does not let it be
read. -/
def entryFor (refusal : Option Text) (p : Path) (bytes : List UInt8) : LoadedFile :=
  match refusal with
  | some message => .failed { path := p.toText, errors := [message] }
  | none => .unit ⟨p.toText, contentOf bytes⟩

theorem loadedAs_of_read (unreadable : Path → Option Text) {disk : FileSystem} {p : Path}
    {bytes : List UInt8} (h : disk.read p = .ok bytes) :
    loadedAs unreadable disk p = entryFor (unreadable p) p bytes := by
  unfold loadedAs readUnder entryFor
  cases unreadable p with
  | none =>
    rw [h]
    rfl
  | some message => rfl

/-- The files that a directory stands for, where its path is `p` and what it leads to is `sub`. -/
structure IsListing (unreadable : Path → Option Text) (disk : FileSystem) (exclude : List Text)
    (p : Path) (sub : FileTree) (files : List Path) : Prop where
  increasing : files.Pairwise fun q q' => q.parts < q'.parts
  mem_iff : ∀ q, q ∈ files ↔ ∃ names bytes, q = p.below names ∧
    sub.get? names = some (.file bytes) ∧ (∃ l, Language.IsListed q.suffix l) ∧
    ∀ name ∈ names, name ∉ exclude
  entry : ∀ names bytes, sub.get? names = some (.file bytes) →
    loadedAs unreadable disk (p.below names) =
      entryFor (unreadable (p.below names)) (p.below names) bytes
  readBack : ∀ q ∈ files, Path.ofText q.toText = q
  language : ∀ q ∈ files, Language.IsListed q.suffix (Language.ofPath (.ofText q.toText))

theorem isListing_selected (unreadable : Path → Option Text) {disk : FileSystem}
    (hdisk : disk.tree.Sound) (exclude : List Text) {p : Path} (hp : p.Sound)
    {entries : List (Text × FileTree)} (hstatus : disk.status p = .ok (.directory entries))
    {found : List (List Text × FileTree)} (hfound : (FileTree.directory entries).Enumerates found) :
    IsListing unreadable disk exclude p (.directory entries) (selected exclude p found) := by
  obtain ⟨before, -, hsub⟩ := FileSystem.status_eq_ok_iff.1 hstatus
  have hsound : (FileTree.directory entries).Sound := (hdisk.get? hsub).1
  have hmem : ∀ q, q ∈ selected exclude p found ↔ ∃ names bytes, q = p.below names ∧
      (FileTree.directory entries).get? names = some (.file bytes) ∧
      (∃ l, Language.IsListed q.suffix l) ∧ ∀ name ∈ names, name ∉ exclude := by
    intro q
    simp only [mem_selected, hfound.mem_iff, isWanted_iff]
    constructor
    · rintro ⟨names, bytes, ⟨hne, hget⟩, ⟨hlisted, hnames⟩, rfl⟩
      rw [Path.suffix_below p hne]
      exact ⟨names, bytes, rfl, hget, hlisted, hnames⟩
    · rintro ⟨names, bytes, rfl, hget, hlisted, hnames⟩
      have hne : names ≠ [] := by
        rintro rfl
        cases hget
      rw [Path.suffix_below p hne] at hlisted
      exact ⟨names, bytes, ⟨hne, hget⟩, ⟨hlisted, hnames⟩, rfl⟩
  have hback : ∀ q ∈ selected exclude p found, Path.ofText q.toText = q := by
    intro q hq
    obtain ⟨names, bytes, rfl, hget, -⟩ := (hmem q).1 hq
    exact Path.ofText_toText (hp.below fun name hname => ((hsound.get? hget).2 name hname).toIsPart)
  exact {
    increasing := pairwise_selected exclude p hfound.once
    mem_iff := hmem
    entry := fun names bytes hget =>
      loadedAs_of_read unreadable (FileSystem.read_below hdisk hstatus hget)
    readBack := hback
    language := by
      intro q hq
      obtain ⟨names, bytes, -, -, hlisted, -⟩ := (hmem q).1 hq
      rw [hback q hq]
      exact Language.isListed_ofPath hlisted }

namespace Sample

/-- A directory with a directory that is named like a file, suffixes in both cases, names without
a suffix, and a name that is passed over. -/
def sources : List (Text × FileTree) := [
  ("lib.js", .directory [("c.mjs", .file [])]), ("b.TS", .file []), (".ts", .file []),
  ("a.tsx", .file []), ("node_modules", .directory [("x.js", .file [])]), ("notes.", .file [])]

def disk : FileSystem :=
  { tree := .directory [("src", .directory sources), ("readme", .file [])] }

theorem sound_disk : disk.tree.Sound := by
  have hinner : ∀ name : Text, FileTree.IsName name →
      (FileTree.directory [(name, .file [])]).Sound := fun name hname =>
    .directory (by simpa using hname) (by simp) (by simpa using .file [])
  have hsources : (FileTree.directory sources).Sound := by
    refine .directory (by decide +kernel) (by decide +kernel) ?_
    simp only [sources, List.forall_mem_cons, List.not_mem_nil, false_imp_iff, implies_true,
      and_true]
    exact ⟨hinner _ (by decide +kernel), .file _, .file _, .file _, hinner _ (by decide +kernel),
      .file _⟩
  refine .directory (by decide +kernel) (by decide +kernel) ?_
  simp only [List.forall_mem_cons, List.not_mem_nil, false_imp_iff, implies_true, and_true]
  exact ⟨hsources, .file _⟩

def refused : Path := .ofText "src/b.TS"

def unreadable (p : Path) : Option Text :=
  if p = refused then some "[Errno 13] Permission denied: 'src/b.TS'" else none

def listed : List Path := [.ofText "src/a.tsx", refused, .ofText "src/lib.js/c.mjs"]

theorem selected_sources : selected defaultExclusions (.ofText "src")
    ((FileTree.directory sources).descendants []) = listed := by
  have honce : (((FileTree.directory sources).descendants []).map (·.1)).Nodup := by
    decide +kernel
  refine Path.eq_of_increasing (pairwise_selected _ _ honce) (by decide +kernel) fun q => ?_
  have hfound : q ∈ selected defaultExclusions (.ofText "src")
      ((FileTree.directory sources).descendants []) ↔
      q ∈ [.ofText "src/lib.js/c.mjs", refused, .ofText "src/a.tsx"] := List.mem_mergeSort
  rw [hfound, ← List.mem_reverse]
  rfl

end Sample

end Loading

end FunctionInventory
