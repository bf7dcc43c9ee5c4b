import FunctionInventory.FileSystem
import FunctionInventory.Proofs.Outcomes
import Mathlib.Data.List.Induction

/-!
# Files that were written

What was written to a path is read from it. A file that can be read can be written, so
that writing fails only where there is no file. Making directories changes no file.
-/
namespace FunctionInventory

namespace FileTree

@[simp] theorem get?_nil (t : FileTree) : t.get? [] = some t := by
  cases t <;> rfl

theorem get?_append (t : FileTree) (names names' : List Text) :
    t.get? (names ++ names') = (t.get? names).bind (·.get? names') := by
  induction names generalizing t with
  | nil => simp
  | cons name names ih =>
    cases t with
    | file b => rfl
    | directory entries => simp [get?, Option.bind_assoc, ih]

theorem child?_setEntry (name n : Text) (t : FileTree) (entries : List (Text × FileTree)) :
    child? n (setEntry name t entries) = if name = n then some t else child? n entries := by
  induction entries with
  | nil => by_cases h : name = n <;> simp [setEntry, child?, h]
  | cons e entries ih =>
    simp only [child?] at ih ⊢
    by_cases he : e.1 = name
    · by_cases h : name = n <;> simp [setEntry, he, h]
    · by_cases h : e.1 = n
      · have hne : n ≠ name := fun hn => he (h.trans hn)
        simp [setEntry, h, hne, hne.symm]
      · simpa [setEntry, he, h] using ih

/-- Each directory of the first tree is one of the second, with at least its names. -/
def Keeps (t t' : FileTree) : Prop :=
  ∀ names entries, t.get? names = some (.directory entries) →
    ∃ entries', t'.get? names = some (.directory entries') ∧
      ∀ name, (child? name entries).isSome → (child? name entries').isSome

theorem keeps_refl (t : FileTree) : Keeps t t := fun _ entries h => ⟨entries, h, fun _ hn => hn⟩

theorem keeps_file (bytes : List UInt8) (t : FileTree) : Keeps (.file bytes) t := by
  intro names entries h
  cases names <;> cases h

theorem keeps_setEntry {name : Text} {entries : List (Text × FileTree)} {sub : FileTree}
    (h : ∀ old, child? name entries = some old → Keeps old sub) :
    Keeps (.directory entries) (.directory (setEntry name sub entries)) := by
  intro names found hfound
  cases names with
  | nil =>
    cases hfound
    refine ⟨_, rfl, fun n hn => ?_⟩
    rw [child?_setEntry]
    split
    · rfl
    · exact hn
  | cons n names =>
    simp only [get?, child?_setEntry] at hfound ⊢
    split
    · next hn =>
      subst hn
      obtain ⟨old, hold, hget⟩ := Option.bind_eq_some_iff.1 hfound
      exact h old hold names found hget
    · exact keeps_refl (.directory entries) (n :: names) found hfound

theorem set_cons (t : FileTree) (entries : List (Text × FileTree)) (name : Text) {names : List Text}
    (h : names ≠ []) : set t (.directory entries) (name :: names) =
      match child? name entries with
      | some sub => .directory (setEntry name (set t sub names) entries)
      | none => .directory entries := by
  cases names with
  | nil => exact absurd rfl h
  | cons n names => rfl

/-- Where there is no directory, a tree may come: all directories stay. -/
theorem keeps_set {t : FileTree} {names : List Text} {last : Text} (x : FileTree)
    (h : ∀ entries, t.get? (names ++ [last]) ≠ some (.directory entries)) :
    Keeps t (set x t (names ++ [last])) := by
  induction names generalizing t with
  | nil =>
    cases t with
    | file b => exact keeps_file b _
    | directory entries =>
      refine keeps_setEntry fun old hold => ?_
      cases old with
      | file b => exact keeps_file b _
      | directory inner =>
        refine absurd ?_ (h inner)
        simp [get?, hold]
  | cons name names ih =>
    cases t with
    | file b => exact keeps_file b _
    | directory entries =>
      rw [List.cons_append, set_cons _ _ _ (by simp)]
      split
      · next sub hsub =>
        refine keeps_setEntry fun old hold => ?_
        cases hsub.symm.trans hold
        refine ih fun inner hinner => h inner ?_
        simpa [get?, hsub] using hinner
      · exact keeps_refl _

theorem get?_set {t : FileTree} {names : List Text} {last : Text} {entries : List (Text × FileTree)}
    (x : FileTree) (h : t.get? names = some (.directory entries)) :
    (set x t (names ++ [last])).get? (names ++ [last]) = some x := by
  induction names generalizing t with
  | nil =>
    cases h
    simp [set, get?, child?_setEntry]
  | cons name names ih =>
    cases t with
    | file b => cases h
    | directory found =>
      obtain ⟨sub, hsub, hget⟩ := Option.bind_eq_some_iff.1 h
      rw [List.cons_append, set_cons _ _ _ (by simp), hsub]
      simp [get?, child?_setEntry, ih hget]

theorem get?_setEntry (name n : Text) (sub : FileTree) (entries : List (Text × FileTree))
    (names : List Text) : (directory (setEntry name sub entries)).get? (n :: names) =
      if name = n then sub.get? names else (directory entries).get? (n :: names) := by
  simp only [get?, child?_setEntry]
  by_cases hn : name = n <;> simp [hn]

/-- Each file of the first tree is one of the second. -/
def KeepsFiles (t t' : FileTree) : Prop :=
  ∀ names bytes, t.get? names = some (.file bytes) → t'.get? names = some (.file bytes)

/-- Where there is nothing, a tree may come: all files stay. -/
theorem keepsFiles_set {t : FileTree} {names : List Text} {last : Text} (x : FileTree)
    (h : t.get? (names ++ [last]) = none) : KeepsFiles t (set x t (names ++ [last])) := by
  intro found bytes hfound
  induction names generalizing t found with
  | nil =>
    cases t with
    | file b => exact hfound
    | directory entries =>
      cases found with
      | nil => cases hfound
      | cons n found =>
        rw [List.nil_append, set, get?_setEntry]
        split
        · next hn =>
          subst hn
          obtain ⟨old, hold, -⟩ := Option.bind_eq_some_iff.1 hfound
          simp [get?, hold] at h
        · exact hfound
  | cons name names ih =>
    cases t with
    | file b => exact hfound
    | directory entries =>
      rw [List.cons_append, set_cons _ _ _ (by simp)]
      split
      · next sub hsub =>
        cases found with
        | nil => cases hfound
        | cons n found =>
          rw [get?_setEntry]
          split
          · next hn =>
            subst hn
            simp only [List.cons_append, get?, hsub, Option.bind_some] at h hfound
            exact ih h found hfound
          · exact hfound
      · exact hfound

end FileTree

namespace FileSystem

variable {s : FileSystem} {p : Path}

theorem follow_eq_ok_iff {names names' : List Text} {part : Text} :
    s.follow names part = .ok names' ↔ ∃ entries, s.tree.get? names = some (.directory entries) ∧
      (part = above ∧ names' = names.dropLast ∨
        part ≠ above ∧ (FileTree.child? part entries).isSome ∧ names' = names ++ [part]) := by
  unfold follow
  split
  · next entries hget =>
    split
    · next habove =>
      constructor
      · rintro ⟨⟩
        exact ⟨entries, hget, .inl ⟨habove, rfl⟩⟩
      · rintro ⟨_, -, ⟨-, rfl⟩ | ⟨hne, -⟩⟩
        · rfl
        · exact absurd habove hne
    · next habove =>
      split
      · next hchild =>
        constructor
        · rintro ⟨⟩
          exact ⟨entries, hget, .inr ⟨habove, hchild, rfl⟩⟩
        · rintro ⟨_, -, ⟨heq, -⟩ | ⟨-, -, rfl⟩⟩
          · exact absurd heq habove
          · rfl
      · next hchild => simp [hget, habove, hchild]
  · next hget => simp [hget]
  · next hget => simp [hget]

theorem locate_append_singleton {root last : Text} {parts names : List Text} :
    s.locate root (parts ++ [last]) = .ok names ↔
      ∃ before, s.locate root parts = .ok before ∧ s.follow before last = .ok names := by
  rw [locate, List.foldlM_append, bind_eq_ok_iff]
  simp [locate]

/-- Directories that stay lead where they led. -/
theorem locate_of_keeps {s' : FileSystem} (htree : s.tree.Keeps s'.tree) (hhere : s'.here = s.here)
    {root : Text} {parts names : List Text} (h : s.locate root parts = .ok names) :
    s'.locate root parts = .ok names := by
  induction parts using List.reverseRecOn generalizing names with
  | nil => simpa [locate, hhere] using h
  | append_singleton parts last ih =>
    obtain ⟨before, hbefore, hfollow⟩ := locate_append_singleton.1 h
    refine locate_append_singleton.2 ⟨before, ih hbefore, ?_⟩
    obtain ⟨entries, hget, hcases⟩ := follow_eq_ok_iff.1 hfollow
    obtain ⟨entries', hget', hnames⟩ := htree before entries hget
    refine follow_eq_ok_iff.2 ⟨entries', hget', ?_⟩
    exact hcases.imp id fun ⟨hne, hchild, heq⟩ => ⟨hne, hnames last hchild, heq⟩

theorem place_eq_ok_iff {names : List Text} {last : Text} :
    s.place p = .ok (some (names, last)) ↔ ∃ parts entries, p.parts = parts ++ [last] ∧
      s.locate p.root parts = .ok names ∧ s.tree.get? names = some (.directory entries) ∧
      last ≠ above := by
  rcases List.eq_nil_or_concat' p.parts with hparts | ⟨parts, last', hparts⟩
  · simp [place, hparts]
  · have hlast : p.parts.getLast? = some last' := by rw [hparts, List.getLast?_concat]
    have hinit : p.parts.dropLast = parts := by rw [hparts, List.dropLast_concat]
    simp only [place, hlast, hinit]
    constructor
    · intro h
      split at h
      · cases h
      · next found hlocate =>
        split at h
        · next entries hget =>
          split at h
          · cases h
          · next habove =>
            cases h
            exact ⟨parts, entries, hparts, hlocate, hget, habove⟩
        · cases h
        · cases h
    · rintro ⟨parts', entries, hparts', hlocate, hget, habove⟩
      obtain ⟨rfl, ⟨⟩⟩ := List.append_inj' (hparts.symm.trans hparts') rfl
      simp [hlocate, hget, habove]

theorem write_eq_ok_iff {bytes : List UInt8} {s' : FileSystem} :
    s.write p bytes = .ok s' ↔ ∃ names last, s.place p = .ok (some (names, last)) ∧
      (∀ inner, s.tree.get? (names ++ [last]) ≠ some (.directory inner)) ∧
      s' = s.put (names ++ [last]) (.file bytes) := by
  rw [write, bind_eq_ok_iff]
  constructor
  · rintro ⟨_ | ⟨names, last⟩, hplace, h⟩
    · cases h
    · dsimp only at h
      split at h
      · cases h
      · next hfree =>
        cases h
        exact ⟨names, last, hplace, hfree, rfl⟩
  · rintro ⟨names, last, hplace, hfree, rfl⟩
    refine ⟨_, hplace, ?_⟩
    dsimp only
    split
    · next inner hinner => exact absurd hinner (hfree inner)
    · rfl

theorem read_eq_ok_iff {bytes : List UInt8} : s.read p = .ok bytes ↔
    ∃ names, s.locate p.root p.parts = .ok names ∧ s.tree.get? names = some (.file bytes) := by
  unfold read status
  cases hlocate : s.locate p.root p.parts with
  | error fault => simp
  | ok names =>
    cases hget : s.tree.get? names with
    | none => simp [hget]
    | some sub => cases sub <;> simp [hget]

theorem pathExists_of_read {bytes : List UInt8} (h : s.read p = .ok bytes) :
    s.pathExists p = true := by
  unfold read at h
  unfold pathExists
  split at h
  · next hstatus => rw [hstatus]
  · cases h
  · cases h

theorem pathExists_of_isDirectory (h : s.isDirectory p = true) : s.pathExists p = true := by
  unfold isDirectory at h
  unfold pathExists
  split at h
  · next hstatus => rw [hstatus]
  · cases h

/-- What was written is read. -/
theorem read_write {bytes : List UInt8} {s' : FileSystem} (h : s.write p bytes = .ok s') :
    s'.read p = .ok bytes := by
  obtain ⟨names, last, hplace, hfree, rfl⟩ := write_eq_ok_iff.1 h
  obtain ⟨parts, entries, hparts, hlocate, hget, hlast⟩ := place_eq_ok_iff.1 hplace
  have hkeeps : s.tree.Keeps (s.put (names ++ [last]) (.file bytes)).tree :=
    FileTree.keeps_set _ hfree
  have hset : (s.put (names ++ [last]) (.file bytes)).tree.get? (names ++ [last]) =
    some (.file bytes) := FileTree.get?_set _ hget
  obtain ⟨entries', hget', -⟩ := hkeeps names entries hget
  refine read_eq_ok_iff.2 ⟨names ++ [last], ?_, hset⟩
  rw [hparts, locate_append_singleton]
  refine ⟨names, locate_of_keeps hkeeps rfl hlocate, ?_⟩
  refine follow_eq_ok_iff.2 ⟨entries', hget', .inr ⟨hlast, ?_, rfl⟩⟩
  rw [FileTree.get?_append, hget', Option.bind_some, FileTree.get?] at hset
  obtain ⟨sub, hsub, -⟩ := Option.bind_eq_some_iff.1 hset
  rw [hsub, Option.isSome_some]

/-- A file that is read can be written. -/
theorem exists_write {directory : Path} {name : Text} (hname : name ≠ above) {old : List UInt8}
    (h : s.read (directory / name) = .ok old) (bytes : List UInt8) :
    ∃ s', s.write (directory / name) bytes = .ok s' := by
  obtain ⟨names, hlocate, hget⟩ := read_eq_ok_iff.1 h
  obtain ⟨before, hbefore, hfollow⟩ := locate_append_singleton.1 hlocate
  obtain ⟨entries, hentries, ⟨habove, -⟩ | ⟨-, -, rfl⟩⟩ := follow_eq_ok_iff.1 hfollow
  · exact absurd habove hname
  · have hplace : s.place (directory / name) = .ok (some (before, name)) :=
      place_eq_ok_iff.2 ⟨directory.parts, entries, rfl, hbefore, hentries, hname⟩
    exact ⟨_, write_eq_ok_iff.2 ⟨before, name, hplace, by simp [hget], rfl⟩⟩

theorem read_of_keeps {s' : FileSystem} (htree : s.tree.Keeps s'.tree)
    (hfiles : s.tree.KeepsFiles s'.tree) (hhere : s'.here = s.here) {bytes : List UInt8}
    (h : s.read p = .ok bytes) : s'.read p = .ok bytes := by
  obtain ⟨names, hlocate, hget⟩ := read_eq_ok_iff.1 h
  exact read_eq_ok_iff.2 ⟨names, locate_of_keeps htree hhere hlocate, hfiles names bytes hget⟩

/-- What can be read before a directory is made is read after it. -/
theorem read_makeDirectory {s' : FileSystem} (h : s.makeDirectory p = .ok s') {q : Path}
    {bytes : List UInt8} (hread : s.read q = .ok bytes) : s'.read q = .ok bytes := by
  rw [makeDirectory, bind_eq_ok_iff] at h
  obtain ⟨_ | ⟨names, last⟩, -, h⟩ := h
  · cases h
  · dsimp only at h
    split at h
    · cases h
    · next hfree =>
      cases h
      have hnone : s.tree.get? (names ++ [last]) = none := by simpa using hfree
      have hkeeps : s.tree.Keeps (s.put (names ++ [last]) .empty).tree :=
        FileTree.keeps_set _ (by simp [hnone])
      exact read_of_keeps hkeeps (FileTree.keepsFiles_set _ hnone) rfl hread

theorem orPresent_eq_ok {r : Except FileError FileSystem} {s' : FileSystem}
    (h : makeDirectories.orPresent p s r = .ok s') : r = .ok s' ∨ s' = s := by
  cases r with
  | ok made => exact .inl h
  | error e =>
    dsimp only [makeDirectories.orPresent] at h
    split at h
    · cases h
      exact .inr rfl
    · cases h

theorem makeDirectory_of_present {names : List Text} {entries : List (Text × FileTree)}
    (hlocate : s.locate p.root p.parts = .ok names)
    (hget : s.tree.get? names = some (.directory entries)) :
    s.makeDirectory p = .error ⟨.present, p⟩ := by
  rcases List.eq_nil_or_concat' p.parts with hparts | ⟨parts, last, hparts⟩
  · have hplace : s.place p = .ok none := by simp [place, hparts]
    rw [makeDirectory, hplace]
    rfl
  · rw [hparts, locate_append_singleton] at hlocate
    obtain ⟨before, hbefore, hfollow⟩ := hlocate
    obtain ⟨found, hfound, hnames⟩ := follow_eq_ok_iff.1 hfollow
    have hplace : s.place p = .ok (if last = above then none else some (before, last)) := by
      simp [place, hparts, hbefore, hfound]
    rw [makeDirectory, hplace]
    rcases hnames with ⟨habove, -⟩ | ⟨habove, -, rfl⟩
    · rw [if_pos habove]
      rfl
    · rw [if_neg habove]
      simp [bind, Except.bind, hget, throw, throwThe, MonadExceptOf.throw]

/-- A directory that is there need not be made. -/
theorem makeDirectories_eq_self {names : List Text} {entries : List (Text × FileTree)}
    (hlocate : s.locate p.root p.parts = .ok names)
    (hget : s.tree.get? names = some (.directory entries)) : s.makeDirectories p = .ok s := by
  have hdirectory : s.isDirectory p = true := by simp [isDirectory, status, hlocate, hget]
  rw [makeDirectories, makeDirectory_of_present hlocate hget]
  simp [makeDirectories.orPresent, hdirectory]

/-- The directory of a file that is read is there. -/
theorem makeDirectories_of_read {directory : Path} {name : Text} {bytes : List UInt8}
    (h : s.read (directory / name) = .ok bytes) :
    s.makeDirectories directory = .ok s := by
  obtain ⟨names, hlocate, -⟩ := read_eq_ok_iff.1 h
  obtain ⟨before, hbefore, hfollow⟩ := locate_append_singleton.1 hlocate
  obtain ⟨entries, hentries, -⟩ := follow_eq_ok_iff.1 hfollow
  exact makeDirectories_eq_self hbefore hentries

theorem read_makeDirectories {s' : FileSystem} (h : s.makeDirectories p = .ok s') {q : Path}
    {bytes : List UInt8} (hread : s.read q = .ok bytes) : s'.read q = .ok bytes := by
  fun_induction makeDirectories s p generalizing s' with
  | case1 p made hmade =>
    cases h
    exact read_makeDirectory hmade hread
  | case2 => cases h
  | case3 => cases h
  | case4 p e _ _ _ above hparent ih =>
    have habove := ih hparent
    rcases orPresent_eq_ok h with hmade | rfl
    · exact read_makeDirectory hmade habove
    · exact habove
  | case5 p e =>
    rcases orPresent_eq_ok h with hmade | rfl
    · cases hmade
    · exact hread

end FileSystem

end FunctionInventory
