import DocPrologue.Proofs.Dependencies
import DocPrologue.Proofs.Joining

/-!
The targets of a manifest. They are the items of the list that its program leaves behind, and none
lacks what generating asks for: generating fails for a file that cannot be read or understood, or
for a package that has no Go name, and for nothing else.
-/

namespace DocPrologue

open Text (utf8)

theorem Format.render_eq_error {format : Format} {package text : Bytes} {error : RenderError}
    (failed : format.render package text = .error error) :
    format = .go ∧ isIdentifier package = false ∧ error = .invalidPackage package := by
  cases format with
  | raw => cases failed
  | go =>
      rw [render, goFile] at failed
      split at failed
      · cases failed
      · rename_i unnamed
        cases failed
        exact ⟨rfl, by simpa using unnamed, rfl⟩

namespace Target

variable {directory : Bytes} {read : Inclusion.Reader} {target : Target} {error : GenerationError}

inductive Fails (read : Inclusion.Reader) (target : Target) : GenerationError → Prop
  | inclusion {path : Bytes} {error : InclusionError} : path ∈ target.inputs →
      Inclusion.Fails read path error → Fails read target (.inclusion error)
  | package : target.format = .go → Format.isIdentifier target.package = false →
      Fails read target (.rendering (.invalidPackage target.package))

/-- A target that lacks nothing: it has files or a text, a format, and the package that a Go file
needs. Whatever its files are like, it is generated or fails for one of the reasons above, which are
never that it has no files or an unknown format. -/
structure WellFormed (target : Target) : Prop where
  source : (∃ paths, paths ≠ [] ∧ target.source = .files paths) ∨
    ∃ content, target.source = .text content
  format : target.format = .raw ∨ target.format = .go
  package : target.format = .go → target.package ≠ []
  generates : ∀ read, (∃ data, target.generate read = .ok data) ∨
    ∃ error, target.generate read = .error error ∧ target.Fails read error
  reported : ∀ read error, target.generate read = .error error →
    .noFiles ∉ error.toFailure.causes ∧ .unknownFormat ∉ error.toFailure.causes

theorem WellMade.fails_of_text (made : target.WellMade directory) {refusal : InclusionError}
    (failed : target.text read = .error refusal) : target.Fails read (.inclusion refusal) := by
  cases source : target.source with
  | text content =>
      rw [text, source] at failed
      cases failed
  | files paths =>
      obtain ⟨given, filled, resolved⟩ := made.files paths source
      -- The paths were resolved when the target was made, so they are the ones that are read.
      have stable : paths.map (Path.resolve []) = paths := by
        rw [resolved, Path.map_resolve_resolve]
      simp only [text, source, stable] at failed
      obtain ⟨path, member, fails⟩ :=
        Inclusion.exists_fails_of_collect (by simpa [resolved] using filled) failed
      exact .inclusion (by rwa [inputs, source]) fails

theorem WellMade.fails (made : target.WellMade directory)
    (failed : target.generate read = .error error) : target.Fails read error := by
  unfold generate at failed
  split at failed
  · rename_i refusal unread
    cases failed
    exact made.fails_of_text unread
  · split at failed
    · rename_i refusal unrendered
      cases failed
      obtain ⟨isGo, unnamed, rfl⟩ := Format.render_eq_error unrendered
      exact .package isGo unnamed
    · cases failed

theorem Fails.reported (fails : target.Fails read error) :
    .noFiles ∉ error.toFailure.causes ∧ .unknownFormat ∉ error.toFailure.causes := by
  rcases fails with ⟨-, unread | misread⟩ | ⟨-, -⟩ <;>
    simp [GenerationError.toFailure, Failure.ofInclusion, Failure.ofRender, Failure.causes]

theorem WellMade.wellFormed (made : target.WellMade directory) : target.WellFormed where
  source := by
    cases source : target.source with
    | text content => exact .inr ⟨content, rfl⟩
    | files paths =>
        obtain ⟨given, filled, rfl⟩ := made.files paths source
        exact .inl ⟨_, by simpa using filled, rfl⟩
  format := by cases target.format <;> simp
  package := made.package
  generates read := by
    cases result : target.generate read with
    | ok data => exact .inl ⟨data, rfl⟩
    | error error => exact .inr ⟨error, rfl, made.fails result⟩
  reported read error failed := (made.fails failed).reported

end Target

namespace Manifest

open Interpreter (Item Value Context TargetCall makeTarget)

section Targets

variable {interpreter : Interpreter} {read : Inclusion.Reader} {filename : Bytes}
  {manifest : Manifest} {printed : List Bytes}

def ListedIn (interpreter : Interpreter) (read : Inclusion.Reader) (filename : Bytes)
    (manifest : Manifest) : Prop :=
  ∃ source, read filename = .ok source ∧
    ((interpreter.course filename source).run (contextOf interpreter read filename)).result =
      .ok (some (.list (manifest.targets.map .target)))

theorem load_listed (loaded : load interpreter read filename = (.ok manifest, printed)) :
    manifest.ListedIn interpreter read filename := by
  obtain ⟨source, left, visited, found, finished, done⟩ := load_eq_ok_iff.mp loaded
  obtain ⟨items, listed, checked, -⟩ := ofLeft_eq_ok_iff.mp done
  refine ⟨source, found, ?_⟩
  rw [finished, targetItems_eq_ok listed, checkTargets_eq_ok checked]

/-- A call makes a target just if it says what a target needs, with files or a text and not both.
Whatever language the program of a manifest is in, as long as it makes no targets up, the targets of
the manifest are the items of the list that it leaves behind, and lack nothing. -/
theorem load_wellFormed :
    (∀ (context : Context) (positional : List Value) (keywords : List (Bytes × Value))
      (target : Target),
      makeTarget context positional keywords = .ok target ↔
        positional = [] ∧ ∃ call : TargetCall, call.SaidBy context.interpreter keywords ∧
          call.Makes context.directory target) ∧
    ∀ (interpreter : Interpreter) read filename manifest printed, interpreter.Unforged →
      load interpreter read filename = (.ok manifest, printed) →
        manifest.ListedIn interpreter read filename ∧
          ∀ target ∈ manifest.targets, target.WellFormed := by
  refine ⟨fun _ _ _ _ => Interpreter.makeTarget_eq_ok_iff, ?_⟩
  intro interpreter read filename manifest printed unforged loaded
  refine ⟨load_listed loaded, ?_⟩
  intro target member
  exact (load_wellMade unforged loaded target member).wellFormed

end Targets

namespace Guide

def name : Bytes := utf8 "docs/m.star"

def source : Bytes := utf8 "targets = []
for page in [\"guide.md\"]:
    targets.append(target(output = page, text = \"\"))
targets.append(target(
    output = \"doc.go\", format = \"go\", package = \"guide\", files = [\"../lib.rs\"],
))
"

def files (path : Bytes) : Except AccessError Bytes :=
  if path = name then .ok source else .error ⟨.openFile, path, .notFound⟩

def manifest : Manifest :=
  ⟨[⟨utf8 "docs/guide.md", .text [], .raw, []⟩,
      ⟨utf8 "docs/doc.go", .files [utf8 "lib.rs"], .go, utf8 "guide"⟩],
    [name, utf8 "lib.rs"]⟩

theorem load_manifest : load Script.interpreter files name = (.ok manifest, []) := by
  let items : List Item := manifest.targets.map .target
  refine load_eq_ok_iff.mpr ⟨source, some (.list items), [], rfl, by decide +kernel, ?_⟩
  exact ofLeft_eq_ok_iff.mpr ⟨items, rfl, by decide +kernel, by cbv⟩

theorem load_wellFormed_guide : load Script.interpreter files name = (.ok manifest, []) ∧
    manifest.ListedIn Script.interpreter files name ∧
      ∀ target ∈ manifest.targets, target.WellFormed :=
  ⟨load_manifest, load_wellFormed.2 Script.interpreter files name manifest []
    Script.interpreter_unforged load_manifest⟩

end Guide

end Manifest

end DocPrologue
