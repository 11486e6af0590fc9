import Mathlib.Data.List.Permutation
import DocPrologue.Manifest
import DocPrologue.Proofs.Courses
import DocPrologue.Proofs.SmallPrograms
import DocPrologue.Proofs.SortedTexts

/-!
What a manifest depends on. Its inputs are its own file, the files that its program opens and the
files of its targets; with other files that agree on the inputs, loading and generating come to the
same. That a file is opened is told from outside: a program opens a path if refusing to read it ends
the program with just that refusal.
-/

namespace DocPrologue

namespace Target

variable {read other : Inclusion.Reader} {directory : Bytes} {target : Target}

theorem text_congr (made : target.WellMade directory)
    (same : ∀ path ∈ target.inputs, other path = read path) :
    target.text other = target.text read := by
  cases source : target.source with
  | text content => simp only [text, source]
  | files paths =>
      obtain ⟨given, -, resolved⟩ := made.files paths source
      have stable : paths.map (Path.resolve []) = paths := by
        rw [resolved, Path.map_resolve_resolve]
      simp only [inputs, source] at same
      simp only [text, source, stable, Inclusion.collect_congr same]

theorem generate_congr (made : target.WellMade directory)
    (same : ∀ path ∈ target.inputs, other path = read path) :
    target.generate other = target.generate read := by
  rw [generate, generate, text_congr made same]

end Target

namespace Manifest

open Interpreter (Item Value Context)

variable {interpreter : Interpreter} {read other : Inclusion.Reader} {filename : Bytes}
  {items : List Item} {left : Option Value} {visited : List Bytes} {targets : List Target}
  {manifest : Manifest} {printed : List Bytes}

theorem checkTargets_eq_ok {place : Nat} {outputs : List Bytes}
    (checked : checkTargets filename place outputs items = .ok targets) :
    items = targets.map .target := by
  induction items generalizing place outputs targets with
  | nil =>
      cases checked
      rfl
  | cons item rest ih =>
      cases item with
      | target target =>
          change (if target.output ∈ outputs then _ else _) = _ at checked
          split at checked
          · contradiction
          · split at checked
            · contradiction
            · rename_i others found
              cases checked
              rw [List.map_cons, ih found]
      | _ => contradiction

theorem targetItems_eq_ok (found : targetItems filename left = .ok items) :
    left = some (.list items) := by
  unfold targetItems at found
  split at found
  · cases found
  · cases found
    rfl
  · cases found

theorem ofLeft_eq_ok_iff : ofLeft filename left visited = .ok manifest ↔
    ∃ items, targetItems filename left = .ok items ∧
      checkTargets filename 0 [] items = .ok manifest.targets ∧
      manifest.inputs =
        Bytes.sortUnique (filename :: visited ++ manifest.targets.flatMap Target.inputs) := by
  unfold ofLeft
  constructor
  · intro done
    split at done
    · contradiction
    · rename_i items found
      split at done
      · contradiction
      · rename_i targets checked
        cases done
        exact ⟨items, found, checked, rfl⟩
  · rintro ⟨items, found, checked, inputs⟩
    simp only [found, checked, ← inputs]

def contextOf (interpreter : Interpreter) (read : Inclusion.Reader) (filename : Bytes) : Context :=
  ⟨interpreter, Path.directory filename, read⟩

theorem load_eq_ok_iff : load interpreter read filename = (.ok manifest, printed) ↔
    ∃ source left visited, read filename = .ok source ∧
      (interpreter.course filename source).run (contextOf interpreter read filename) =
        ⟨.ok left, printed, visited⟩ ∧
      ofLeft filename left visited = .ok manifest := by
  unfold load
  constructor
  · intro loaded
    split at loaded
    · simp at loaded
    · rename_i source found
      dsimp only at loaded
      split at loaded
      · simp at loaded
      · rename_i left finished
        obtain ⟨done, rfl⟩ := Prod.mk.inj loaded
        refine ⟨source, left, _, found, ?_, done⟩
        rw [← finished]
        rfl
  · rintro ⟨source, left, visited, found, finished, done⟩
    unfold contextOf at finished
    simp only [found, finished, done]

theorem load_of_failed {source : Bytes} {failure : Failure} (found : read filename = .ok source)
    (failed : ((interpreter.course filename source).run
      (contextOf interpreter read filename)).result = .error failure) :
    (load interpreter read filename).1 = .error failure := by
  unfold contextOf at failed
  simp only [load, found, failed]

def Opens (interpreter : Interpreter) (read : Inclusion.Reader) (filename path : Bytes) : Prop :=
  ∃ source, read filename = .ok source ∧
    (interpreter.course filename source).Opens (contextOf interpreter read filename) path

theorem load_wellMade (unforged : interpreter.Unforged)
    (loaded : load interpreter read filename = (.ok manifest, printed)) :
    ∀ target ∈ manifest.targets, target.WellMade (Path.directory filename) := by
  obtain ⟨source, left, visited, -, finished, done⟩ := load_eq_ok_iff.mp loaded
  obtain ⟨items, found, checked, -⟩ := ofLeft_eq_ok_iff.mp done
  have made := (unforged filename source _).wellMade (congrArg (·.result) finished)
  intro target member
  apply made (.list items) (targetItems_eq_ok found) (.target target)
  rw [checkTargets_eq_ok checked]
  exact List.mem_map_of_mem member

theorem mem_inputs (done : ofLeft filename left visited = .ok manifest) (path : Bytes) :
    path ∈ manifest.inputs ↔
      path = filename ∨ path ∈ visited ∨ ∃ target ∈ manifest.targets, path ∈ target.inputs := by
  obtain ⟨items, -, -, inputs⟩ := ofLeft_eq_ok_iff.mp done
  rw [inputs, Bytes.mem_sortUnique]
  simp

theorem load_inputs (loaded : load interpreter read filename = (.ok manifest, printed))
    (path : Bytes) :
    path ∈ manifest.inputs ↔ path = filename ∨ Opens interpreter read filename path ∨
      ∃ target ∈ manifest.targets, path ∈ target.inputs := by
  obtain ⟨source, left, visited, found, finished, done⟩ := load_eq_ok_iff.mp loaded
  have opened : Opens interpreter read filename path ↔ path ∈ visited := by
    have asked := Interpreter.Course.opens_iff (congrArg (·.result) finished) path
    rw [finished] at asked
    rw [← asked]
    constructor
    · rintro ⟨_, sameSource, opens⟩
      cases found.symm.trans sameSource
      exact opens
    · exact fun opens => ⟨source, found, opens⟩
  rw [mem_inputs done, opened]

theorem load_increasing (loaded : load interpreter read filename = (.ok manifest, printed)) :
    manifest.inputs.Pairwise (· < ·) := by
  obtain ⟨source, left, visited, -, -, done⟩ := load_eq_ok_iff.mp loaded
  obtain ⟨items, -, -, inputs⟩ := ofLeft_eq_ok_iff.mp done
  rw [inputs]
  exact Bytes.sortUnique_increasing _

theorem load_congr (loaded : load interpreter read filename = (.ok manifest, printed))
    (agree : ∀ path ∈ manifest.inputs, other path = read path) :
    load interpreter other filename = (.ok manifest, printed) := by
  obtain ⟨source, left, visited, found, finished, done⟩ := load_eq_ok_iff.mp loaded
  have again : (interpreter.course filename source).run (contextOf interpreter other filename) =
      ⟨.ok left, printed, visited⟩ := by
    have moved : contextOf interpreter other filename =
        (contextOf interpreter read filename).reading other := rfl
    rw [← finished, moved]
    apply Interpreter.Course.run_congr
    intro path member
    rw [finished] at member
    exact agree path ((mem_inputs done path).mpr (.inr (.inl member)))
  have same : other filename = .ok source :=
    (agree filename ((mem_inputs done filename).mpr (.inl rfl))).trans found
  exact load_eq_ok_iff.mpr ⟨source, left, visited, same, again, done⟩

/-- The inputs of a manifest are all that it depends on, whatever language its program is in, as
long as programs make no targets up. -/
theorem load_depends (unforged : interpreter.Unforged)
    (loaded : load interpreter read filename = (.ok manifest, printed)) :
    manifest.inputs.Pairwise (· < ·) ∧
    (∀ path, path ∈ manifest.inputs ↔ path = filename ∨ Opens interpreter read filename path ∨
      ∃ target ∈ manifest.targets, path ∈ target.inputs) ∧
    ∀ other : Inclusion.Reader, (∀ path ∈ manifest.inputs, other path = read path) →
      load interpreter other filename = (.ok manifest, printed) ∧
        ∀ target ∈ manifest.targets, target.generate other = target.generate read := by
  refine ⟨load_increasing loaded, load_inputs loaded, ?_⟩
  intro other agree
  refine ⟨load_congr loaded agree, ?_⟩
  intro target member
  apply Target.generate_congr (load_wellMade unforged loaded target member)
  intro path input
  exact agree path ((load_inputs loaded path).mpr (.inr (.inr ⟨target, member, input⟩)))

section Shelf

open Text (utf8)

def shelfSource : Bytes := utf8 "targets = [
    target(output = \"b.md\", files = [\"b.rs\"]),
    target(output = \"a.md\", text = docs.include(\"a.rs\")),
]
"

def shelf (unread : Bytes) (path : Bytes) : Except AccessError Bytes :=
  if path = utf8 "m.star" then .ok shelfSource
  else if path = utf8 "a.rs" then .ok (utf8 "//! A")
  else if path = utf8 "c.rs" then .ok unread
  else .error ⟨.openFile, path, .notFound⟩

def shelfManifest : Manifest :=
  ⟨[⟨utf8 "b.md", .files [utf8 "b.rs"], .raw, []⟩, ⟨utf8 "a.md", .text (utf8 "A"), .raw, []⟩],
    [utf8 "a.rs", utf8 "b.rs", utf8 "m.star"]⟩

theorem load_shelf :
    load Script.interpreter (shelf []) (utf8 "m.star") = (.ok shelfManifest, []) := by
  let items : List Item := shelfManifest.targets.map .target
  refine load_eq_ok_iff.mpr
    ⟨shelfSource, some (.list items), [utf8 "a.rs"], rfl, by decide +kernel, ?_⟩
  exact ofLeft_eq_ok_iff.mpr ⟨items, rfl, by decide +kernel, by cbv⟩

theorem load_depends_shelf :
    load Script.interpreter (shelf []) (utf8 "m.star") = (.ok shelfManifest, []) ∧
    load Script.interpreter (shelf (utf8 "//! C")) (utf8 "m.star") = (.ok shelfManifest, []) ∧
    ∀ target ∈ shelfManifest.targets,
      target.generate (shelf (utf8 "//! C")) = target.generate (shelf []) := by
  have agree : ∀ path ∈ shelfManifest.inputs, shelf (utf8 "//! C") path = shelf [] path := by
    decide +kernel
  exact ⟨load_shelf, (load_depends Script.interpreter_unforged load_shelf).2.2 _ agree⟩

end Shelf

end Manifest

end DocPrologue
