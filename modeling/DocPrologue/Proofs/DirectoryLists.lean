import Mathlib.Data.List.Permutation
import DocPrologue.Proofs.ResolvablePaths
import DocPrologue.Proofs.SortedTexts

/-!
The list of the directories of files. It is in byte order, has each path once, and depends on
nothing but which files there are. A directory is listed by its path without links where there is
one, and as it is otherwise; either is listed again for a file that stands in it.
-/

namespace DocPrologue.FileTree

inductive StandsFor (tree : FileTree) (directory : Bytes) : Bytes → Prop
  | resolved {listed place node} : tree.resolveLinks directory = some listed →
      Path.clean listed = listed → tree.Reaches maxResolvedLinks directory place node →
      tree.Reaches 0 listed place node → StandsFor tree directory listed
  | kept : tree.resolveLinks directory = none → ¬ tree.Resolvable directory →
      StandsFor tree directory directory

def FileIn (directory path : Bytes) : Prop :=
  ∃ name, Path.IsName name ∧ Byte.slash ∉ name ∧
    (path = Path.join directory name ∨ path = directory ++ Byte.slash :: name)

structure FilesOf (directories paths : List Bytes) : Prop where
  inside : ∀ path ∈ paths, ∃ directory ∈ directories, FileIn directory path
  each : ∀ directory ∈ directories, ∃ path ∈ paths, FileIn directory path

section Directories

variable {tree : FileTree} {directory listed path : Bytes} {paths others : List Bytes}

theorem standsFor_iff :
    tree.StandsFor directory listed ↔ (tree.resolveLinks directory).getD directory = listed := by
  constructor
  · rintro (⟨resolves, -, -, -⟩ | ⟨fails, -⟩)
    · rw [resolves, Option.getD_some]
    · rw [fails, Option.getD_none]
  · rintro rfl
    cases resolves : tree.resolveLinks directory with
    | some resolved =>
        obtain ⟨place, node, before, after⟩ := reaches_resolved resolves
        exact .resolved resolves (clean_resolved resolves) before after
    | none =>
        refine .kept resolves fun resolvable => ?_
        have found := isSome_resolveLinks resolvable
        rw [resolves] at found
        contradiction

theorem standsFor_directoryOf : tree.StandsFor (Path.directory path) (tree.directoryOf path) :=
  standsFor_iff.mpr rfl

theorem StandsFor.again (stands : tree.StandsFor directory listed) :
    tree.StandsFor listed listed := by
  cases stands with
  | resolved resolves _ _ _ =>
      rw [standsFor_iff, resolveLinks_resolved resolves, Option.getD_some]
  | kept fails unresolvable => exact .kept fails unresolvable

theorem StandsFor.clean_listed (stands : tree.StandsFor (Path.directory path) listed) :
    Path.clean listed = listed := by
  cases stands with
  | resolved _ clean _ _ => exact clean
  | kept _ _ => exact Path.clean_clean _

theorem mem_directories :
    listed ∈ tree.directories paths ↔ ∃ path ∈ paths, tree.directoryOf path = listed := by
  rw [directories, Bytes.mem_sortUnique, List.mem_map]

theorem directory_of_fileIn (clean : Path.clean directory = directory)
    (within : FileIn directory path) : Path.directory path = directory := by
  have filled : directory ≠ [] := by
    rw [← clean]
    exact Path.clean_ne_nil directory
  obtain ⟨name, named, inside, rfl | rfl⟩ := within
  · have relative := Path.isAbsolute_of_not_mem inside
    have resolved := Path.directory_resolve filled named.1 named.2.1 named.2.2 inside
    rw [Path.resolve, if_neg (by simp [relative]), clean] at resolved
    exact resolved
  · rw [Path.directory, Path.upToSlash_below inside, Path.clean_slash filled, clean]

theorem directoryOf_fileIn (member : listed ∈ tree.directories paths)
    (within : FileIn listed path) : tree.directoryOf path = listed := by
  obtain ⟨first, -, rfl⟩ := mem_directories.mp member
  have stands := @standsFor_directoryOf tree first
  rw [directoryOf, directory_of_fileIn stands.clean_listed within]
  exact standsFor_iff.mp stands.again

theorem directories_filesOf (files : FilesOf (tree.directories paths) others) :
    tree.directories others = tree.directories paths := by
  refine (Bytes.sortUnique_increasing _).eq_of_mem_iff (Bytes.sortUnique_increasing _) ?_
  intro listed
  change listed ∈ tree.directories others ↔ listed ∈ tree.directories paths
  constructor
  · intro member
    obtain ⟨path, isPath, rfl⟩ := mem_directories.mp member
    obtain ⟨directory, isListed, within⟩ := files.inside path isPath
    rw [directoryOf_fileIn isListed within]
    exact isListed
  · intro isListed
    obtain ⟨path, isPath, within⟩ := files.each listed isListed
    exact mem_directories.mpr ⟨path, isPath, directoryOf_fileIn isListed within⟩

theorem filesOf_map {name : Bytes} (named : Path.IsName name) (inside : Byte.slash ∉ name)
    (directories : List Bytes) :
    FilesOf directories (directories.map fun directory => directory ++ Byte.slash :: name) := by
  have within (directory : Bytes) : FileIn directory (directory ++ Byte.slash :: name) :=
    ⟨name, named, inside, .inr rfl⟩
  constructor
  · intro path member
    obtain ⟨directory, isListed, rfl⟩ := List.mem_map.mp member
    exact ⟨directory, isListed, within directory⟩
  · exact fun directory isListed => ⟨_, List.mem_map_of_mem isListed, within directory⟩

theorem directories_congr (same : ∀ path, path ∈ others ↔ path ∈ paths) :
    tree.directories others = tree.directories paths := by
  refine Bytes.sortUnique_eq_of_mem_iff fun listed => ?_
  simp only [List.mem_map, same]

/-- The directories of files are a canonical set. -/
theorem directories_canonical (tree : FileTree) (paths : List Bytes) :
    (tree.directories paths).Pairwise (· < ·) ∧
      (∀ listed, listed ∈ tree.directories paths ↔
        ∃ path ∈ paths, tree.StandsFor (Path.directory path) listed) ∧
      (∀ others, (∀ path, path ∈ others ↔ path ∈ paths) →
        tree.directories others = tree.directories paths) ∧
      (∀ others listed, listed ∈ tree.directories (paths ++ others) ↔
        listed ∈ tree.directories paths ∨ listed ∈ tree.directories others) ∧
      ∀ files, FilesOf (tree.directories paths) files →
        tree.directories files = tree.directories paths := by
  refine ⟨Bytes.sortUnique_increasing _, fun listed => ?_, fun others => directories_congr,
    fun others listed => ?_, fun files => directories_filesOf⟩
  · rw [mem_directories]
    simp only [standsFor_iff]
    rfl
  · simp only [mem_directories, List.mem_append, or_and_right, exists_or]

end Directories

namespace LinkedDirectories

open Text (utf8)

def workplace : Location := [utf8 "w"]

def tree : FileTree where
  entries := [(workplace, .directory), (workplace ++ [utf8 "real"], .directory),
    (workplace ++ [utf8 "alias"], .link (utf8 "real")),
    (workplace ++ [utf8 "astray"], .link (utf8 "gone"))]
  here := workplace

def paths : List Bytes :=
  [utf8 "real/a.rs", utf8 "astray/b.rs", utf8 "alias/c.rs", utf8 "./gone/d.rs"]

theorem directories_paths :
    tree.directories paths = [utf8 "astray", utf8 "gone", utf8 "real"] := by
  cbv

theorem directories_canonical_linked :
    tree.directories paths = [utf8 "astray", utf8 "gone", utf8 "real"] ∧
      tree.directories (paths.reverse ++ paths) = tree.directories paths ∧
      tree.directories [utf8 "astray/x", utf8 "gone/x", utf8 "real/x"] =
        tree.directories paths := by
  obtain ⟨-, -, reordered, -, inside⟩ := directories_canonical tree paths
  have named : Path.IsName (utf8 "x") := by
    unfold Path.IsName
    decide
  refine ⟨directories_paths, reordered _ (by simp), inside _ ?_⟩
  rw [directories_paths]
  exact filesOf_map named (by decide) _

end LinkedDirectories

end DocPrologue.FileTree
