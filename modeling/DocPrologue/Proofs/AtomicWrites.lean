import Mathlib.Data.List.Permutation
import DocPrologue.AtomicWrite
import DocPrologue.Proofs.Denotations

/-!
What an atomic write does to the files. It fails and leaves the tree as it is, or finds the data
there already, or rewrites the entry of its path and nothing else; the temporary file is gone in
each case. After a write that succeeds the path reads as the data.
-/

namespace DocPrologue.FileTree

variable {tree after moved : FileTree} {path data directory stem : Bytes} {mode : Nat}
  {place source : Location} {node : Node} {temp : TempFile} {changed : Bool} {failure : Failure}
  {fault : Option FillFault}

theorem walk_free {follow asDirectory : Bool} {links : Nat} {location : Location}
    {parts : List Bytes}
    (walked : tree.walk follow links location parts = .ok (.free place asDirectory)) :
    place ≠ [] ∧ tree.lookup place = none := by
  fun_induction walk tree follow links location parts with
  | case5 links location part rest moves down long free blank =>
      cases walked
      exact ⟨by simp, free⟩
  | case2 links location part rest stays ih => exact ih walked
  | case3 links location rest _ ih => exact ih walked
  | case7 links location part rest moves down long found ih => exact ih walked
  | case12 location part rest moves down long target found last links ih => exact ih walked
  | _ => cases walked

theorem locate_free {follow asDirectory : Bool}
    (located : tree.locate follow path = .ok (.free place asDirectory)) :
    place ≠ [] ∧ tree.lookup place = none :=
  walk_free (locate_eq_ok_iff.mp located).2

theorem createTemp_eq_ok {attempts number : Nat}
    (made : tree.createTemp directory stem attempts number = .ok temp) :
    temp.location ≠ [] ∧ tree.lookup temp.location = none ∧
      temp.tree = tree.insert temp.location (.file [] tempMode) := by
  induction attempts generalizing number with
  | zero => contradiction
  | succ attempts ih =>
      unfold createTemp at made
      dsimp only at made
      split at made
      · contradiction
      · exact ih made
      · rename_i location asDirectory located
        cases made
        obtain ⟨named, free⟩ := locate_free located
        exact ⟨named, free, rfl⟩

theorem moveFile_eq_ok (done : tree.moveFile source node path = .ok moved) :
    ∃ place, tree.EntryAt path place ∧ moved = (tree.erase source).insert place node := by
  unfold moveFile at done
  split at done
  · contradiction
  · contradiction
  · rename_i location found noDirectory located
    cases done
    refine ⟨location, ⟨_, located, ?_⟩, rfl⟩
    cases found with
    | directory => exact (noDirectory rfl).elim
    | file | link => rfl
  · rename_i location asDirectory located
    split at done
    · contradiction
    · rename_i isFile
      cases done
      exact ⟨location, ⟨_, located, by simpa [Spot.place?] using isFile⟩, rfl⟩

def ReadsOrLacks (tree : FileTree) (path : Bytes) : Prop :=
  ∀ error, tree.read path = .error error → error.cause.isMissing = true

theorem ReadsOrLacks.noDirectory (reads : tree.ReadsOrLacks path) {location : Location} :
    tree.locate true path ≠ .ok (.taken location .directory) := by
  intro located
  have refused : tree.read path = .error ⟨.readFile, path, .isDirectory⟩ := by
    rw [read, node?, located]
  exact Bool.false_ne_true (reads _ refused)

theorem ReadsOrLacks.noLoop (reads : tree.ReadsOrLacks path) :
    tree.locate true path ≠ .error .tooManyLinks := by
  intro located
  have refused : tree.read path = .error ⟨.openFile, path, .tooManyLinks⟩ := by
    rw [read, node?, located]
  exact Bool.false_ne_true (reads _ refused)

theorem locate_of_usable {follow : Bool} (usable : Usable path) :
    tree.locate follow path = tree.walk follow maxLinks (tree.origin path) (Path.parts path) := by
  obtain ⟨noNull, filled, short⟩ := usable
  rw [locate, if_neg noNull, if_neg (by simpa using filled), if_neg (by omega)]
  rfl

theorem ReadsOrLacks.leaf (reads : tree.ReadsOrLacks path) (usable : Usable path) {left : Nat}
    (names : tree.Names maxLinks (tree.origin path) (Path.parts path) left place) :
    tree.Leaf place := by
  have located := @locate_of_usable tree path true usable
  constructor
  · intro found
    rw [names.walk_eq (by simp [found]), spotAt, found] at located
    exact reads.noDirectory located
  · intro target found links fewer reached enters
    cases left with
    | zero => exact reads.noLoop (located.trans (names.walk_exhausted found))
    | succ left =>
        rw [names.walk_onward found] at located
        rcases enters.walk_true left with directory | loop
        · exact reads.noDirectory (located.trans directory)
        · exact reads.noLoop (located.trans loop)

theorem Leaf.ne_nil (leaf : tree.Leaf place) : place ≠ [] := by
  rintro rfl
  exact leaf.noDirectory lookup_nil

theorem leaf_of_free (free : tree.lookup place = none) : tree.Leaf place :=
  ⟨by simp [free], by simp [free]⟩

theorem Leaf.rewrites (leaf : tree.Leaf place) (text : Bytes) (mode : Nat) :
    Rewrites tree (tree.insert place (.file text mode)) place where
  here := rfl
  others _ different := lookup_insert_of_ne different
  file := ⟨text, mode, lookup_insert_self leaf.ne_nil⟩
  leaf := leaf

theorem locate_insert_entry {text : Bytes} (entry : tree.EntryAt path place)
    (leaf : tree.Leaf place) (follow : Bool) :
    (tree.insert place (.file text mode)).locate follow path =
      .ok (.taken place (.file text mode)) := by
  obtain ⟨usable, ⟨left, names⟩, -⟩ := entryAt_iff.mp entry
  have rewrites := leaf.rewrites text mode
  have found := @lookup_insert_self tree place (.file text mode) leaf.ne_nil
  rw [locate_of_usable usable, rewrites.origin_eq,
    (rewrites.names_iff.mpr names).walk_eq (by simp [found]), spotAt, found]

theorem read_insert {text : Bytes} (entry : tree.EntryAt path place)
    (leaf : tree.Leaf place) :
    (tree.insert place (.file text mode)).read path = .ok text :=
  read_eq_ok_iff.mpr ⟨place, mode, locate_insert_entry entry leaf true⟩

theorem replaceFile_eq_ok (reads : tree.ReadsOrLacks path)
    (done : tree.replaceFile fault path data mode = (.ok changed, after)) :
    changed = true ∧ ∃ place, tree.EntryAt path place ∧ tree.Leaf place ∧
      after = tree.insert place (.file data mode) := by
  unfold replaceFile at done
  split at done
  · cases done
  · rename_i temp made
    obtain ⟨named, free, shape⟩ := createTemp_eq_ok made
    split at done
    · cases done
    · dsimp only at done
      rw [shape, insert_insert named free] at done
      split at done
      · cases done
      · rename_i moved isMoved
        cases done
        obtain ⟨place, entry, rfl⟩ := moveFile_eq_ok isMoved
        rw [erase_insert named free]
        have entryHere := ((leaf_of_free free).rewrites _ _).entryAt entry
        obtain ⟨usable, ⟨left, names⟩, -⟩ := entryAt_iff.mp entryHere
        exact ⟨rfl, place, entryHere, reads.leaf usable names, rfl⟩

theorem replaceFile_eq_error
    (failed : tree.replaceFile fault path data mode = (.error failure, after)) : after = tree := by
  unfold replaceFile at failed
  split at failed
  · cases failed
    rfl
  · rename_i temp made
    obtain ⟨named, free, shape⟩ := createTemp_eq_ok made
    split at failed
    · cases failed
      rw [shape, erase_insert named free]
    · dsimp only at failed
      split at failed
      · cases failed
        rw [shape, erase_insert named free]
      · cases failed

theorem replaceFile_faulty (fault : FillFault) :
    ∃ failure, tree.replaceFile (some fault) path data mode = (.error failure, tree) := by
  rcases ended : tree.replaceFile (some fault) path data mode with ⟨failure | changed, after⟩
  · exact ⟨failure, by rw [replaceFile_eq_error ended]⟩
  · unfold replaceFile at ended
    split at ended <;> cases ended

theorem writeAtomically_eq_error
    (failed : tree.writeAtomically fault path data mode = (.error failure, after)) :
    after = tree := by
  unfold writeAtomically at failed
  split at failed
  · split at failed
    · cases failed
    · exact replaceFile_eq_error failed
  · split at failed
    · exact replaceFile_eq_error failed
    · cases failed
      rfl

/-- A write that succeeds finds the data there, or puts a file with it in the place of the entry. -/
theorem writeAtomically_eq_ok
    (written : tree.writeAtomically fault path data mode = (.ok changed, after)) :
    (changed = false ∧ tree.read path = .ok data ∧ after = tree) ∨
      (changed = true ∧ ∃ place, tree.EntryAt path place ∧ tree.Leaf place ∧
        after = tree.insert place (.file data mode)) := by
  unfold writeAtomically at written
  split at written
  · rename_i old found
    have reads : tree.ReadsOrLacks path := by simp [ReadsOrLacks, found]
    split at written
    · rename_i same
      cases written
      exact .inl ⟨rfl, same ▸ found, rfl⟩
    · exact .inr (replaceFile_eq_ok reads written)
  · rename_i error refused
    split at written
    · rename_i missing
      have reads : tree.ReadsOrLacks path := by simpa [ReadsOrLacks, refused] using missing
      exact .inr (replaceFile_eq_ok reads written)
    · cases written

theorem writeAtomically_faulty (fault : FillFault) :
    (tree.writeAtomically (some fault) path data mode).1 ≠ .ok true := by
  obtain ⟨failure, failed⟩ := @replaceFile_faulty tree path data mode fault
  unfold writeAtomically
  split
  · split
    · simp
    · simp [failed]
  · split
    · simp [failed]
    · simp

theorem read_writeAtomically
    (written : tree.writeAtomically fault path data mode = (.ok changed, after)) :
    after.read path = .ok data := by
  rcases writeAtomically_eq_ok written with ⟨-, found, rfl⟩ | ⟨-, place, entry, leaf, rfl⟩
  · exact found
  · exact read_insert entry leaf

theorem writeAtomically_of_read (found : tree.read path = .ok data) (fault : Option FillFault)
    (mode : Nat) : tree.writeAtomically fault path data mode = (.ok false, tree) := by
  rw [writeAtomically, found]
  exact if_pos rfl

section Endings

variable {result : Except Failure Bool × FileTree}

structure FindsData (tree : FileTree) (path data : Bytes)
    (result : Except Failure Bool × FileTree) : Prop where
  read : tree.read path = .ok data
  result : result = (.ok false, tree)

def LeavesNoTrace (tree : FileTree) (result : Except Failure Bool × FileTree) : Prop :=
  ∃ failure, result = (.error failure, tree)

/-- The entry of the path is a regular file with the data now. Every other entry is what it was,
and so is the one that a link in the place of the file led to. -/
structure Replaces (tree : FileTree) (path data : Bytes) (mode : Nat) (place : Location)
    (result : Except Failure Bool × FileTree) : Prop where
  changed : result.1 = .ok true
  entry : tree.EntryAt path place
  stands : result.2.locate false path = .ok (.taken place (.file data mode))
  file : result.2.lookup place = some (.file data mode)
  others : ∀ other, other ≠ place → result.2.lookup other = tree.lookup other
  here : result.2.here = tree.here

theorem replaces_insert (entry : tree.EntryAt path place) (leaf : tree.Leaf place) :
    tree.Replaces path data mode place
      (.ok true, tree.insert place (.file data mode)) where
  changed := rfl
  entry := entry
  stands := locate_insert_entry entry leaf false
  file := lookup_insert_self leaf.ne_nil
  others _ different := lookup_insert_of_ne different
  here := rfl

theorem ending_of_writeAtomically (written : tree.writeAtomically fault path data mode = result) :
    tree.FindsData path data result ∨ tree.LeavesNoTrace result ∨
      ∃ place, tree.Replaces path data mode place result := by
  obtain ⟨failure | changed, after⟩ := result
  · exact .inr (.inl ⟨failure, by rw [writeAtomically_eq_error written]⟩)
  · rcases writeAtomically_eq_ok written with ⟨rfl, found, rfl⟩ | ⟨rfl, place, entry, leaf, rfl⟩
    · exact .inl ⟨found, rfl⟩
    · exact .inr (.inr ⟨place, replaces_insert entry leaf⟩)

/-- A write ends in exactly one of three ways: the data is there already, or the files are left as
they were, or one file stands in the place of the entry, which it never does if the temporary file
cannot be finished. If it has not failed, the same write again finds the data there. -/
theorem writeAtomically_endings (tree : FileTree) (fault : Option FillFault) (path data : Bytes)
    (mode : Nat) :
    let result := tree.writeAtomically fault path data mode
    (tree.FindsData path data result ∨ tree.LeavesNoTrace result ∨
      ∃ place, tree.Replaces path data mode place result) ∧
    ¬(tree.FindsData path data result ∧ tree.LeavesNoTrace result) ∧
    ¬(tree.FindsData path data result ∧ ∃ place, tree.Replaces path data mode place result) ∧
    ¬(tree.LeavesNoTrace result ∧ ∃ place, tree.Replaces path data mode place result) ∧
    ((∃ place, tree.Replaces path data mode place result) → fault = none) ∧
    ∀ later,
      (tree.FindsData path data result ∨ ∃ place, tree.Replaces path data mode place result) →
      result.2.writeAtomically later path data mode = (.ok false, result.2) := by
  intro result
  refine ⟨ending_of_writeAtomically rfl, ?_, ?_, ?_, ?_, fun later done => ?_⟩
  · rintro ⟨finds, failure, failed⟩
    cases finds.result.symm.trans failed
  · rintro ⟨finds, place, replaces⟩
    have changed := replaces.changed
    rw [finds.result] at changed
    cases changed
  · rintro ⟨⟨failure, failed⟩, place, replaces⟩
    have changed := replaces.changed
    rw [failed] at changed
    cases changed
  · rintro ⟨place, replaces⟩
    cases isFault : fault with
    | none => rfl
    | some found =>
        have changed : (tree.writeAtomically fault path data mode).1 = .ok true := replaces.changed
        rw [isFault] at changed
        exact absurd changed (writeAtomically_faulty found)
  · have written : ∃ changed, result.1 = .ok changed := by
      rcases done with finds | ⟨place, replaces⟩
      · exact ⟨false, congrArg Prod.fst finds.result⟩
      · exact ⟨true, replaces.changed⟩
    obtain ⟨changed, same⟩ := written
    exact writeAtomically_of_read (read_writeAtomically (Prod.ext same rfl)) later mode

-- A temporary file beside the empty name can be made, and not be moved there.
example (data : Bytes) (mode : Nat) : (⟨[], []⟩ : FileTree).writeAtomically none [] data mode =
    (.error (.moving (Text.utf8 "./...tmp1000000000") [] .notFound), ⟨[], []⟩) := by
  cbv

end Endings

namespace LinkedFile

open Text (utf8)

def link : Bytes := utf8 "l"

def target : Bytes := utf8 "t"

def old : Node := .file (utf8 "old") newFileMode

def new : Node := .file (utf8 "new") newFileMode

def linked : FileTree := ⟨[([target], old), ([link], .link target)], []⟩

def replaced : FileTree := ⟨[([target], old), ([link], new)], []⟩

theorem writeAtomically_link :
    linked.writeAtomically none link (utf8 "new") newFileMode = (.ok true, replaced) := by
  cbv

theorem writeAtomically_endings_link :
    linked.read link = .ok (utf8 "old") ∧
      linked.writeAtomically none link (utf8 "new") newFileMode = (.ok true, replaced) ∧
      (∃ place, linked.Replaces link (utf8 "new") newFileMode place (.ok true, replaced)) ∧
      replaced.lookup [target] = some old ∧
      replaced.writeAtomically none link (utf8 "new") newFileMode = (.ok false, replaced) := by
  obtain ⟨ending, -, -, -, -, again⟩ :=
    writeAtomically_endings linked none link (utf8 "new") newFileMode
  rw [writeAtomically_link] at ending again
  have replaces : ∃ place,
      linked.Replaces link (utf8 "new") newFileMode place (.ok true, replaced) := by
    rcases ending with finds | ⟨failure, failed⟩ | replaces
    · cases finds.result
    · cases failed
    · exact replaces
  exact ⟨by cbv, writeAtomically_link, replaces, rfl, again none (.inr replaces)⟩

end LinkedFile

end DocPrologue.FileTree
