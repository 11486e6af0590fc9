import DocPrologue.Proofs.Denotations
import DocPrologue.Proofs.Inclusions

/-!
Files in memory and the same files on disk. A path that does not leave the working directory is
cleaned to the same names for both, and then both find the same file or none. So an inclusion comes
to the same text from either, or ends at the same path.
-/

namespace DocPrologue

namespace Path

variable {rooted : Bool} {stack : List Bytes} {part path : Bytes}

def StaysInside (path : Bytes) : Prop :=
  clean path ≠ parent ∧ Bytes.startsWith (parent ++ [Byte.slash]) (clean path) = false

theorem Settled.isName (settled : Settled rooted stack) (member : part ∈ stack)
    (down : part ≠ parent) : IsName part := by
  induction settled with
  | nil => contradiction
  | up _ parents =>
      rcases List.mem_cons.mp member with rfl | later
      · contradiction
      · exact absurd (parents part later) down
  | name nonempty noDot _ _ _ ih =>
      rcases List.mem_cons.mp member with rfl | later
      · exact ⟨nonempty, noDot, down⟩
      · exact ih later

theorem Settled.getLast?_of_parent (settled : Settled rooted stack) (climbs : parent ∈ stack) :
    stack.getLast? = some parent := by
  induction settled with
  | nil => contradiction
  | @up below _ parents =>
      obtain ⟨last, isLast⟩ : ∃ last, (parent :: below).getLast? = some last :=
        ⟨_, List.getLast?_eq_some_getLast (List.cons_ne_nil parent below)⟩
      rw [isLast]
      rcases List.mem_cons.mp (List.mem_of_getLast? isLast) with rfl | later
      · rfl
      · rw [parents last later]
  | name _ _ noParent _ _ ih =>
      rcases List.mem_cons.mp climbs with same | later
      · exact absurd same.symm noParent
      · rw [List.getLast?_cons, ih later]
        rfl

theorem parts_clean (relative : isAbsolute path = false) (inside : StaysInside path) :
    clean path = current ∨ ∀ part ∈ parts (clean path), IsName part := by
  have settled := settled_stack false path
  have cleaned : clean path = ofParts false (stackOf false path).reverse := by
    rw [clean_eq, relative]
  generalize stackOf false path = stack at settled cleaned
  by_cases empty : stack.reverse = []
  · rw [cleaned, empty]
    exact .inl rfl
  · have joined : clean path = Bytes.join [Byte.slash] stack.reverse := by
      rw [cleaned, ofParts, if_neg (by decide), if_neg (by simpa using empty)]
    have split : parts (clean path) = stack.reverse := by
      rw [joined]
      exact Bytes.split_join empty fun part member =>
        (settled.member (List.mem_reverse.mp member)).2
    have level : parent ∉ stack := by
      intro climbs
      obtain ⟨front, shape⟩ := List.getLast?_eq_some_iff.mp (settled.getLast?_of_parent climbs)
      rw [shape, List.reverse_concat] at joined
      cases others : front.reverse with
      | nil =>
          rw [others] at joined
          exact inside.1 (joined.trans (by simp [Bytes.join]))
      | cons next others' =>
          rw [others, Bytes.join, List.flatMap_cons, List.append_assoc, ← List.append_assoc]
            at joined
          have starts := Bytes.startsWith_iff.mpr ⟨_, joined⟩
          rw [inside.2] at starts
          contradiction
    rw [split]
    refine .inr fun part member => settled.isName (List.mem_reverse.mp member) ?_
    rintro rfl
    exact level (List.mem_reverse.mp member)

theorem parts_inj {first second : Bytes} : parts first = parts second ↔ first = second := by
  refine ⟨fun same => ?_, congrArg parts⟩
  rw [← Bytes.join_split Byte.slash first, ← Bytes.join_split Byte.slash second]
  exact congrArg _ same

theorem resolve_relative (relative : isAbsolute path = false) (filled : path ≠ []) :
    resolve [] path = clean path := by
  rw [resolve, if_neg (by simp [relative]), join, if_pos List.isEmpty_nil,
    if_neg (by simpa using filled)]

end Path

namespace FileTree

variable {tree : FileTree} {links mode : Nat} {location place : Location} {parts : List Bytes}
  {text : Bytes}

theorem place_of_walk_file
    (noLink : ∀ below target, tree.lookup (location ++ below) ≠ some (.link target))
    (names : ∀ part ∈ parts, Path.IsName part)
    (walked : tree.walk true links location parts = .ok (.taken place (.file text mode))) :
    place = location ++ parts := by
  induction parts generalizing location with
  | nil =>
      rw [walk] at walked
      cases walked
  | cons part rest ih =>
      have name := names part (by simp)
      by_cases short : part.length ≤ maxName
      · rw [walk_name name short] at walked
        rcases found : tree.lookup (location ++ [part]) with _ | _ | ⟨held, heldMode⟩ | target
        · rw [found] at walked
          dsimp only at walked
          split at walked <;> cases walked
        · rw [found] at walked
          rw [List.append_cons]
          refine ih (fun below => ?_) (fun other member => names other (by simp [member])) walked
          rw [← List.append_cons]
          exact noLink (part :: below)
        · rw [found] at walked
          dsimp only at walked
          split at walked
          · rename_i last
            cases walked
            rw [List.isEmpty_iff.mp last]
          · cases walked
        · exact absurd found (noLink [part] target)
      · rw [walk_long (by simpa using ⟨name.1, name.2.1⟩) name.2.2 (by omega)] at walked
        cases walked

theorem walk_to_file (names : ∀ part ∈ parts, Path.IsName part ∧ part.length ≤ maxName)
    (ways : ∀ front back, parts = front ++ back → front ≠ [] → back ≠ [] →
      tree.lookup (location ++ front) = some .directory)
    (filled : parts ≠ []) (found : tree.lookup (location ++ parts) = some (.file text mode)) :
    tree.walk true links location parts =
      .ok (.taken (location ++ parts) (.file text mode)) := by
  induction parts generalizing location with
  | nil => contradiction
  | cons part rest ih =>
      obtain ⟨name, short⟩ := names part (by simp)
      rw [walk_name name short]
      cases rest with
      | nil =>
          rw [found]
          rfl
      | cons next later =>
          rw [ways [part] (next :: later) rfl (by simp) (by simp)]
          rw [List.append_cons location part (next :: later)] at found ⊢
          refine ih (fun other member => names other (by simp [member])) ?_ (by simp) found
          intro front back split started more
          rw [← List.append_cons]
          exact ways (part :: front) back (by rw [split, List.cons_append]) (by simp) more

theorem read_eq_ok_iff_walk {path text : Bytes} :
    tree.read path = .ok text ↔ Usable path ∧ ∃ place mode,
      tree.walk true maxLinks (tree.origin path) (Path.parts path) =
        .ok (.taken place (.file text mode)) := by
  rw [read_eq_ok_iff]
  constructor
  · rintro ⟨place, mode, located⟩
    obtain ⟨usable, walked⟩ := locate_eq_ok_iff.mp located
    exact ⟨usable, place, mode, walked⟩
  · rintro ⟨usable, place, mode, walked⟩
    exact ⟨place, mode, locate_eq_ok_iff.mpr ⟨usable, walked⟩⟩

end FileTree

namespace Inclusion

inductive Alike {α : Type} : Except InclusionError α → Except InclusionError α → Prop
  | ok (value : α) : Alike (.ok value) (.ok value)
  | noFiles : Alike (.error .noFiles) (.error .noFiles)
  | malformed (error : Malformed) : Alike (.error (.malformed error)) (.error (.malformed error))
  | unreadable (path : Bytes) (cause other : AccessError) :
      Alike (.error (.unreadable path cause)) (.error (.unreadable path other))

theorem Alike.bind {α β : Type} {first second : Except InclusionError α}
    {next onward : α → Except InclusionError β} (alike : Alike first second)
    (after : ∀ value, Alike (next value) (onward value)) :
    Alike (first.bind next) (second.bind onward) := by
  cases alike with
  | ok value => exact after value
  | noFiles => exact .noFiles
  | malformed error => exact .malformed error
  | unreadable path cause again => exact .unreadable path cause again

variable {read other : Reader} {paths : List Bytes} {path : Bytes}

theorem textOf_alike (same : ∀ text, read path = .ok text ↔ other path = .ok text) :
    Alike (textOf read path) (textOf other path) := by
  unfold textOf
  cases found : read path with
  | ok source =>
      rw [(same source).mp found]
      dsimp only
      cases Block.extract path source with
      | ok block => exact .ok block.text
      | error error => exact .malformed error
  | error cause =>
      cases refused : other path with
      | ok source =>
          rw [(same source).mpr refused] at found
          contradiction
      | error again => exact .unreadable path cause again

theorem textsOf_alike
    (same : ∀ path ∈ paths, ∀ text, read path = .ok text ↔ other path = .ok text) :
    Alike (textsOf read paths) (textsOf other paths) := by
  induction paths with
  | nil => exact .ok []
  | cons path paths ih =>
      rw [textsOf_cons, textsOf_cons]
      have first := textOf_alike (same path (by simp))
      have rest := ih fun later member => same later (by simp [member])
      exact first.bind fun text => rest.bind fun texts => .ok (text :: texts)

theorem collect_alike
    (same : ∀ path ∈ paths, ∀ text, read path = .ok text ↔ other path = .ok text) :
    Alike (collect read paths) (collect other paths) := by
  by_cases filled : paths = []
  · rw [filled]
    exact .noFiles
  · rw [collect_of_ne_nil filled, collect_of_ne_nil filled]
    exact (textsOf_alike same).bind fun texts => .ok (joinTexts texts)

end Inclusion

namespace Bundle

def textOf? (bundle : Bundle) (name : Bytes) : Option Bytes :=
  (bundle.reverse.find? (·.1 == name)).map (·.2)

structure IsFileName (name : Bytes) : Prop where
  valid : Text.isValidUtf8 name = true
  usable : FileTree.Usable name
  parts : ∀ part ∈ Path.parts name, Path.IsName part ∧ part.length ≤ FileTree.maxName

/-- The files of a bundle are those below the working directory of a tree. Directories lead to
them, and there are no links. -/
structure LiesIn (bundle : Bundle) (tree : FileTree) : Prop where
  names : ∀ file ∈ bundle, IsFileName file.1
  files : ∀ place text,
    (∃ mode, tree.lookup (tree.here ++ place) = some (.file text mode)) ↔
    ∃ name, bundle.textOf? name = some text ∧ Path.parts name = place
  ways : ∀ name, (bundle.textOf? name).isSome → ∀ front back, Path.parts name = front ++ back →
    front ≠ [] → back ≠ [] → tree.lookup (tree.here ++ front) = some .directory
  noLink : ∀ place target, tree.lookup (tree.here ++ place) ≠ some (.link target)

variable {bundle : Bundle} {tree : FileTree} {name path text : Bytes} {paths : List Bytes}

theorem mem_of_textOf? (found : bundle.textOf? name = some text) : (name, text) ∈ bundle := by
  simp only [textOf?, Option.map_eq_some_iff] at found
  obtain ⟨file, isFirst, rfl⟩ := found
  have named : file.1 = name := by simpa using List.find?_some isFirst
  rw [← named]
  exact List.mem_reverse.mp (List.mem_of_find?_eq_some isFirst)

theorem textOf?_isSome {file : Bytes × Bytes} (member : file ∈ bundle) :
    (bundle.textOf? file.1).isSome := by
  rw [textOf?, Option.isSome_map, List.find?_isSome]
  exact ⟨file, List.mem_reverse.mpr member, by simp⟩

theorem IsFileName.isValidPath (isName : IsFileName name) : isValidPath name = true := by
  unfold Bundle.isValidPath
  rw [isName.valid, Bool.true_and, Bool.or_eq_true]
  refine .inr (List.all_eq_true.mpr fun part member => ?_)
  obtain ⟨nonempty, noDot, noParent⟩ := (isName.parts part member).1
  simp [nonempty, noDot, noParent]

theorem read_eq_ok_iff (names : ∀ file ∈ bundle, IsFileName file.1) :
    bundle.read path = .ok text ↔ bundle.textOf? path = some text := by
  unfold read textOf?
  constructor
  · intro done
    split at done
    · split at done
      · rename_i file found
        cases done
        rw [found]
        rfl
      · split at done <;> cases done
    · cases done
  · intro found
    have isName := names _ (mem_of_textOf? found)
    obtain ⟨file, isFirst, rfl⟩ := Option.map_eq_some_iff.mp found
    rw [if_pos isName.isValidPath, isFirst]

theorem LiesIn.read_iff_of_names (lies : bundle.LiesIn tree)
    (relative : Path.isAbsolute path = false) (names : ∀ part ∈ Path.parts path, Path.IsName part) :
    tree.read path = .ok text ↔ bundle.read path = .ok text := by
  have start : tree.origin path = tree.here := by
    rw [FileTree.origin, if_neg (by simp [relative])]
  rw [read_eq_ok_iff lies.names, FileTree.read_eq_ok_iff_walk, start]
  constructor
  · rintro ⟨-, place, mode, walked⟩
    have stands := FileTree.lookup_of_walk_file walked
    rw [FileTree.place_of_walk_file lies.noLink names walked] at stands
    obtain ⟨other, held, same⟩ := (lies.files _ _).mp ⟨mode, stands⟩
    rw [← Path.parts_inj.mp same]
    exact held
  · intro held
    have isName := lies.names _ (mem_of_textOf? held)
    obtain ⟨mode, stands⟩ := (lies.files _ _).mpr ⟨path, held, rfl⟩
    refine ⟨isName.usable, tree.here ++ Path.parts path, mode, ?_⟩
    exact FileTree.walk_to_file isName.parts (lies.ways path (by simp [held]))
      (Bytes.split_ne_nil _ _) stands

theorem LiesIn.read_current (lies : bundle.LiesIn tree) :
    tree.read Path.current ≠ .ok text ∧ bundle.read Path.current ≠ .ok text := by
  constructor
  · intro done
    obtain ⟨-, place, mode, walked⟩ := FileTree.read_eq_ok_iff_walk.mp done
    have single : Path.parts Path.current = [Path.current] := by decide
    rw [single, FileTree.walk_stay (.inr rfl), FileTree.walk] at walked
    cases walked
  · intro done
    have held := (read_eq_ok_iff lies.names).mp done
    have single : Path.current ∈ Path.parts Path.current := by decide
    exact ((lies.names _ (mem_of_textOf? held)).parts _ single).1.2.1 rfl

theorem LiesIn.read_clean_iff (lies : bundle.LiesIn tree)
    (relative : Path.isAbsolute path = false) (inside : Path.StaysInside path) :
    tree.read (Path.clean path) = .ok text ↔ bundle.read (Path.clean path) = .ok text := by
  rcases Path.parts_clean relative inside with dot | names
  · rw [dot]
    exact iff_of_false lies.read_current.1 lies.read_current.2
  · exact lies.read_iff_of_names ((Path.isAbsolute_clean path).trans relative) names

/-- Including files from disk and from memory comes to the same text, or ends at the same path: for
the same fault of its prologue, or because the file cannot be read. -/
theorem LiesIn.collect_agrees (lies : bundle.LiesIn tree)
    (taken : ∀ path ∈ paths, path ≠ [] ∧ Path.isAbsolute path = false ∧ Path.StaysInside path) :
    Inclusion.Alike (tree.collect [] paths) (bundle.collect paths) := by
  have resolved : paths.map (Path.resolve []) = paths.map Path.clean :=
    List.map_congr_left fun path member =>
      Path.resolve_relative (taken path member).2.1 (taken path member).1
  rw [FileTree.collect, Bundle.collect, resolved]
  apply Inclusion.collect_alike
  intro path member text
  obtain ⟨given, isGiven, rfl⟩ := List.mem_map.mp member
  obtain ⟨-, relative, inside⟩ := taken given isGiven
  exact lies.read_clean_iff relative inside

section OnDisk

variable {here : Location} {place : Location}

def fileEntry (here : Location) (file : Bytes × Bytes) : Location × Node :=
  (here ++ Path.parts file.1, .file file.2 FileTree.newFileMode)

def wayEntries (here : Location) (name : Bytes) : List (Location × Node) :=
  (List.range (Path.parts name).length).map fun depth =>
    (here ++ (Path.parts name).take depth, .directory)

def onDisk (bundle : Bundle) (here : Location) : FileTree :=
  ⟨bundle.reverse.map (fileEntry here) ++ bundle.flatMap (fun file => wayEntries here file.1), here⟩

theorem here_onDisk : (bundle.onDisk here).here = here :=
  rfl

theorem lookup_onDisk_file (held : bundle.textOf? name = some text) :
    (bundle.onDisk here).lookup (here ++ Path.parts name) =
      some (.file text FileTree.newFileMode) := by
  obtain ⟨file, isFirst, rfl⟩ := Option.map_eq_some_iff.mp held
  have named : here ++ Path.parts name ≠ [] := by simp [Path.parts, Bytes.split_ne_nil]
  have same : (fun other : Bytes × Bytes => (fileEntry here other).1 == here ++ Path.parts name) =
      fun other => other.1 == name := by
    funext other
    rw [Bool.eq_iff_iff, beq_iff_eq, beq_iff_eq, fileEntry, List.append_cancel_left_eq,
      Path.parts_inj]
  rw [FileTree.lookup_of_ne_nil named, onDisk, List.find?_append, List.find?_map]
  simp only [Function.comp_def, same, isFirst]
  rfl

theorem of_lookup_onDisk {node : Node}
    (found : (bundle.onDisk here).lookup (here ++ place) = some node) :
    node = .directory ∨ ∃ file ∈ bundle, place = Path.parts file.1 ∧
      node = .file file.2 FileTree.newFileMode := by
  by_cases root : here ++ place = []
  · rw [root] at found
    cases found
    exact .inl rfl
  · rw [FileTree.lookup_of_ne_nil root] at found
    obtain ⟨entry, isFirst, rfl⟩ := Option.map_eq_some_iff.mp found
    have stands : entry.1 = here ++ place := by simpa using List.find?_some isFirst
    rcases List.mem_append.mp (List.mem_of_find?_eq_some isFirst) with isFile | isWay
    · obtain ⟨file, member, rfl⟩ := List.mem_map.mp isFile
      exact .inr ⟨file, List.mem_reverse.mp member, (List.append_cancel_left stands).symm, rfl⟩
    · obtain ⟨file, -, onWay⟩ := List.mem_flatMap.mp isWay
      obtain ⟨depth, -, rfl⟩ := List.mem_map.mp onWay
      exact .inl rfl

theorem lookup_onDisk_isSome {front back : List Bytes} (held : (bundle.textOf? name).isSome)
    (split : Path.parts name = front ++ back) (more : back ≠ []) :
    ((bundle.onDisk here).lookup (here ++ front)).isSome := by
  by_cases root : here ++ front = []
  · rw [root]
    rfl
  · obtain ⟨text, found⟩ := Option.isSome_iff_exists.mp held
    rw [FileTree.lookup_of_ne_nil root, Option.isSome_map, List.find?_isSome]
    refine ⟨(here ++ front, .directory), List.mem_append_right _ ?_, by simp⟩
    refine List.mem_flatMap.mpr ⟨_, mem_of_textOf? found, List.mem_map.mpr ⟨front.length, ?_, ?_⟩⟩
    · have longer := List.length_pos_iff.mpr more
      rw [List.mem_range, split, List.length_append]
      omega
    · rw [split, List.take_left]

theorem liesIn_onDisk (names : ∀ file ∈ bundle, IsFileName file.1)
    (apart : ∀ file ∈ bundle, ∀ other ∈ bundle,
      Path.parts file.1 <+: Path.parts other.1 → file.1 = other.1) :
    bundle.LiesIn (bundle.onDisk here) where
  names := names
  files := by
    intro place text
    rw [here_onDisk]
    constructor
    · rintro ⟨mode, found⟩
      rcases of_lookup_onDisk found with isDirectory | ⟨file, member, rfl, -⟩
      · cases isDirectory
      · obtain ⟨text, held⟩ := Option.isSome_iff_exists.mp (textOf?_isSome member)
        rw [lookup_onDisk_file held] at found
        cases found
        exact ⟨file.1, held, rfl⟩
    · rintro ⟨name, held, rfl⟩
      exact ⟨FileTree.newFileMode, lookup_onDisk_file held⟩
  ways := by
    intro name held front back split _ more
    obtain ⟨node, found⟩ := Option.isSome_iff_exists.mp (lookup_onDisk_isSome held split more)
    rw [here_onDisk, found]
    rcases of_lookup_onDisk found with rfl | ⟨file, member, isFile, -⟩
    · rfl
    · obtain ⟨text, has⟩ := Option.isSome_iff_exists.mp held
      rw [isFile] at split
      have same := apart file member _ (mem_of_textOf? has) ⟨back, split.symm⟩
      rw [same] at split
      exact absurd (List.self_eq_append_right.mp split) more
  noLink := by
    intro place target found
    rcases of_lookup_onDisk found with isDirectory | ⟨file, -, -, isFile⟩
    · cases isDirectory
    · cases isFile

end OnDisk

namespace TwoFiles

open Text (utf8)

def files : Bundle :=
  [(utf8 "src/a.rs", utf8 "//! A\n"), (utf8 "b.rs", utf8 "//! B\n")]

def spellings : List Bytes := [utf8 "./src//a.rs", utf8 "src/../b.rs"]

theorem isFileName : ∀ file ∈ files, IsFileName file.1 := by
  intro file member
  simp only [files, List.mem_cons, List.not_mem_nil, or_false] at member
  rcases member with rfl | rfl <;>
    exact ⟨by decide +kernel, by unfold FileTree.Usable; decide, by unfold Path.IsName; decide⟩

theorem apart : ∀ file ∈ files, ∀ other ∈ files,
    Path.parts file.1 <+: Path.parts other.1 → file.1 = other.1 := by
  decide

theorem relative_inside : ∀ path ∈ spellings,
    path ≠ [] ∧ Path.isAbsolute path = false ∧ Path.StaysInside path := by
  unfold Path.StaysInside
  decide +kernel

theorem collect_agrees_spellings :
    files.LiesIn (files.onDisk []) ∧
      (∀ path ∈ spellings, path ≠ [] ∧ Path.isAbsolute path = false ∧ Path.StaysInside path) ∧
      files.collect spellings = .ok (utf8 "A\n\nB") ∧
      Inclusion.Alike ((files.onDisk []).collect [] spellings) (files.collect spellings) :=
  ⟨liesIn_onDisk isFileName apart, relative_inside, by decide +kernel,
    (liesIn_onDisk isFileName apart).collect_agrees relative_inside⟩

end TwoFiles

end Bundle

end DocPrologue
