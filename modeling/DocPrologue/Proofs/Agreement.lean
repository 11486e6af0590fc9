import DocPrologue.Proofs.CommandRuns
import DocPrologue.Proofs.Joining
import DocPrologue.Proofs.TargetPrograms

/-!
Three ways to one text: a run for given files, a manifest target with these files, and one with the
text that includes them. With a manifest of the usual name in the same directory they generate the
same, or fail for the same file: the last one while it loads, the others while they generate.
-/

namespace DocPrologue

open Text (utf8)
open Interpreter (TargetCall)

namespace Tool

def manifestName : Bytes := utf8 "includedocs.star"

def attempt (interpreter : Interpreter) (settings : Settings) (files : List Bytes)
    (world : World) : Except Failure (List (Except GenerationError Bytes)) :=
  match (Plan.make interpreter settings files world).2 with
  | .error failure => .error failure
  | .ok plan => .ok (plan.jobs.map (·.work.generate world.tree))

def Settings.withManifest (settings : Settings) : Settings :=
  { settings with output := [], format := [], manifest := manifestName }

def Settings.manifestDirectory (settings : Settings) : Bytes :=
  Path.directory settings.withManifest.manifestPath

def withText (world : World) (place : Location) (text : Bytes) (mode : Nat) : World :=
  { world with tree := world.tree.insert place (.file text mode) }

def rendered (format : Format) (package : Bytes) :
    Except InclusionError Bytes → Except GenerationError Bytes
  | .error error => .error (.inclusion error)
  | .ok text => (format.render package text).mapError .rendering

theorem generate_files (tree : FileTree) (directory package : Bytes) (paths : List Bytes)
    (format : Format) :
    (Work.files directory paths format package).generate tree =
      rendered format package (tree.collect directory paths) := by
  rw [Work.generate.eq_1, rendered.eq_def]
  cases tree.collect directory paths with
  | error error => rfl
  | ok text =>
      dsimp only
      cases format.render package text <;> rfl

theorem generate_target (target : Target) (read : Inclusion.Reader) :
    target.generate read = rendered target.format target.package (target.text read) := by
  rw [Target.generate, rendered.eq_def]
  cases target.text read with
  | error error => rfl
  | ok text =>
      dsimp only
      cases target.format.render target.package text <;> rfl

theorem text_resolved (read : Inclusion.Reader) (directory output package : Bytes)
    (paths : List Bytes) (format : Format) :
    (Target.mk output (.files (paths.map (Path.resolve directory))) format package).text read =
      Inclusion.collect read (paths.map (Path.resolve directory)) :=
  congrArg (Inclusion.collect read) (Path.map_resolve_resolve directory paths)

section Agree

variable {interpreter : Interpreter} {settings : Settings} {paths : List Bytes} {world : World}
  {output : Bytes} {format : Format} {place : Location} {old : Bytes} {mode : Nat}

theorem attempt_files (direct : settings.usesManifest = false)
    (accepted : Format.parse settings.format = .ok format) :
    attempt interpreter settings paths world =
      .ok [rendered format settings.package (world.tree.collect settings.directory paths)] := by
  rw [attempt, Plan.make_files direct, Plan.ofFiles, accepted, ← generate_files]
  rfl

theorem attempt_target {goal : Target} {inputs : List Bytes}
    (loaded : (settings.withManifest.load interpreter world.tree).1 = .ok ⟨[goal], inputs⟩) :
    attempt interpreter settings.withManifest [] world =
      .ok [rendered goal.format goal.package (goal.text world.tree.read)] := by
  rw [attempt, Plan.make_manifest rfl, loaded, ← generate_target]
  rfl

theorem attempt_unloaded {failure : Failure}
    (unloaded : (settings.withManifest.load interpreter world.tree).1 = .error failure) :
    attempt interpreter settings.withManifest [] world = .error failure := by
  rw [attempt, Plan.make_manifest rfl, unloaded]

theorem resolve_manifestPath (inDirectory : settings.directory ≠ []) (path : Bytes) :
    Path.resolve settings.manifestDirectory path = Path.resolve settings.directory path := by
  have stands : Path.directory (Path.resolve settings.directory manifestName) =
      Path.clean settings.directory :=
    Path.directory_resolve inDirectory (by decide) (by decide) (by decide) (by decide)
  change Path.resolve (Path.directory (Path.resolve settings.directory manifestName)) path = _
  rw [stands, Path.resolve_clean_directory inDirectory]

theorem collect_withText (text : Bytes) (inDirectory : settings.directory ≠ [])
    (found : world.tree.lookup place = some (.file old mode))
    (apart : ∀ path ∈ paths, ∀ node,
      world.tree.locate true (Path.resolve settings.directory path) ≠ .ok (.taken place node)) :
    Inclusion.collect (withText world place text mode).tree.read
        (paths.map (Path.resolve settings.manifestDirectory)) =
      world.tree.collect settings.directory paths := by
  have resolved : paths.map (Path.resolve settings.manifestDirectory) =
      paths.map (Path.resolve settings.directory) :=
    List.map_congr_left fun path _ => resolve_manifestPath inDirectory path
  rw [resolved, FileTree.collect]
  apply Inclusion.collect_congr
  intro path member
  obtain ⟨given, isGiven, rfl⟩ := List.mem_map.mp member
  exact FileTree.read_insert_apart found (apart given isGiven)

theorem read_withText (text : Bytes)
    (stands : world.tree.locate true settings.withManifest.manifestPath =
      .ok (.taken place (.file old mode))) :
    (withText world place text mode).tree.read settings.withManifest.manifestPath = .ok text :=
  FileTree.read_insert_here stands

/-- The three ways agree, in every language with a program that makes one target of the files and
one that makes it of the text that includes them. Where the files have a text, each attempt comes to
the same one. Where one of them cannot be read or understood, the direct attempt and the target with
the files come to that refusal, and the manifest that includes them is refused for it. -/
theorem attempts_agree {named included : Bytes} (direct : settings.usesManifest = false)
    (inDirectory : settings.directory ≠ []) (filled : paths ≠ []) (destination : output ≠ [])
    (accepted : Format.parse settings.format = .ok format)
    (packaged : format = .go → settings.package ≠ [])
    (stands : world.tree.locate true settings.withManifest.manifestPath =
      .ok (.taken place (.file old mode)))
    (apart : ∀ path ∈ paths, ∀ node,
      world.tree.locate true (Path.resolve settings.directory path) ≠ .ok (.taken place node))
    (makesNamed : (interpreter.course settings.withManifest.manifestPath named).MakesOne interpreter
      ⟨output, paths, none, settings.format, settings.package⟩)
    (makesIncluded : (interpreter.course settings.withManifest.manifestPath included).IncludesOne
      interpreter paths fun text => ⟨output, [], some text, settings.format, settings.package⟩) :
    let collected := world.tree.collect settings.directory paths
    attempt interpreter settings paths world =
      .ok [rendered format settings.package collected] ∧
    attempt interpreter settings.withManifest [] (withText world place named mode) =
      .ok [rendered format settings.package collected] ∧
    attempt interpreter settings.withManifest [] (withText world place included mode) =
      (match collected with
      | .ok text => .ok [rendered format settings.package (.ok text)]
      | .error error => .error (.raised (.ofInclusion error))) ∧
    collected ≠ .error .noFiles := by
  have found := FileTree.lookup_of_walk_file (FileTree.locate_eq_ok_iff.mp stands).2
  refine ⟨attempt_files direct accepted, ?_, ?_, ?_⟩
  · have same := collect_withText named inDirectory found apart
    have makes : TargetCall.Makes settings.manifestDirectory
        ⟨output, paths, none, settings.format, settings.package⟩
        ⟨Path.resolve settings.manifestDirectory output,
          .files (paths.map (Path.resolve settings.manifestDirectory)), format, settings.package⟩ :=
      ⟨destination, rfl, .files (by simpa using filled), accepted, packaged, rfl⟩
    obtain ⟨inputs, loaded⟩ :=
      Manifest.load_makesOne (read_withText named stands) makesNamed makes
    rw [attempt_target loaded, text_resolved, same]
  · have same := collect_withText included inDirectory found apart
    rcases shape : world.tree.collect settings.directory paths with error | text
    · rw [shape] at same
      exact attempt_unloaded
        (Manifest.load_includesOne_error (read_withText included stands) makesIncluded same)
    · rw [shape] at same
      have makes : TargetCall.Makes settings.manifestDirectory
          ⟨output, [], some text, settings.format, settings.package⟩
          ⟨Path.resolve settings.manifestDirectory output, .text text, format,
            settings.package⟩ :=
        ⟨destination, rfl, .text text, accepted, packaged, rfl⟩
      obtain ⟨inputs, loaded⟩ := Manifest.load_includesOne (read_withText included stands)
        makesIncluded makes same
      exact attempt_target loaded
  · exact Inclusion.collect_ne_noFiles (by simpa using filled)

end Agree

namespace Fruit

def workplace : Location := [utf8 "d"]

def world : World := .ofTree
  ⟨[(workplace, .directory),
    (workplace ++ [manifestName], .file [] FileTree.newFileMode),
    (workplace ++ [utf8 "a.rs"], .file (utf8 "//! Fruit\n") FileTree.newFileMode)],
    workplace⟩

def settings : Settings := ⟨Path.current, [], utf8 "go", utf8 "fruit", [], false⟩

def paths : List Bytes := [utf8 "a.rs", utf8 "b.rs"]

def named : Bytes := utf8 "targets = [target(
    output = \"doc.go\", files = [\"a.rs\", \"b.rs\"], format = \"go\", package = \"fruit\",
)]
"

def included : Bytes := utf8 "targets = [target(
    output = \"doc.go\", text = docs.include(*[\"a.rs\", \"b.rs\"]),
    format = \"go\", package = \"fruit\",
)]
"

def listTokens : List Script.Token :=
  [.mark 0x5B, .text (utf8 "a.rs"), .mark 0x2C, .text (utf8 "b.rs"), .mark 0x5D]

def namedTokens : List Script.Token :=
  [.name (utf8 "files"), .mark 0x3D] ++ listTokens

def includedTokens : List Script.Token :=
  [.name (utf8 "text"), .mark 0x3D, .name (utf8 "docs.include"), .mark 0x28, .mark 0x2A] ++
    listTokens ++ [.mark 0x29]

def tokens (source : List Script.Token) : List Script.Token :=
  [.line 0, .name (utf8 "targets"), .mark 0x3D, .mark 0x5B, .name (utf8 "target"), .mark 0x28,
    .name (utf8 "output"), .mark 0x3D, .text (utf8 "doc.go"), .mark 0x2C] ++ source ++
    [.mark 0x2C, .name (utf8 "format"), .mark 0x3D, .text settings.format, .mark 0x2C,
    .name (utf8 "package"), .mark 0x3D, .text settings.package, .mark 0x2C, .mark 0x29, .mark 0x5D]

theorem program_named : Script.Program.ofText? named =
    some (Script.targetProgram (utf8 "doc.go") settings.format settings.package
      (Script.filesArgument paths)) := by
  have scanned : Script.Token.ofText? named = some (tokens namedTokens) := by decide +kernel
  exact Script.Program.ofText?_eq_some scanned rfl

theorem program_included : Script.Program.ofText? included =
    some (Script.targetProgram (utf8 "doc.go") settings.format settings.package
      (Script.includeArgument paths)) := by
  have scanned : Script.Token.ofText? included = some (tokens includedTokens) := by decide +kernel
  exact Script.Program.ofText?_eq_some scanned rfl

theorem attempts_agree_fruit :
    let collected := world.tree.collect settings.directory paths
    attempt Script.interpreter settings paths world =
      .ok [rendered .go settings.package collected] ∧
    attempt Script.interpreter settings.withManifest []
      (withText world (workplace ++ [manifestName]) named FileTree.newFileMode) =
        .ok [rendered .go settings.package collected] ∧
    attempt Script.interpreter settings.withManifest []
      (withText world (workplace ++ [manifestName]) included FileTree.newFileMode) =
        (match collected with
        | .ok text => .ok [rendered .go settings.package (.ok text)]
        | .error error => .error (.raised (.ofInclusion error))) ∧
    collected ≠ .error .noFiles := by
  have stands : world.tree.locate true settings.withManifest.manifestPath =
      .ok (.taken (workplace ++ [manifestName]) (.file [] FileTree.newFileMode)) := by
    cbv
  have apart : ∀ path ∈ paths, ∀ node,
      world.tree.locate true (Path.resolve settings.directory path) ≠
        .ok (.taken (workplace ++ [manifestName]) node) := by
    have first : world.tree.locate true (Path.resolve settings.directory (utf8 "a.rs")) =
        .ok (.taken (workplace ++ [utf8 "a.rs"])
          (.file (utf8 "//! Fruit\n") FileTree.newFileMode)) := by cbv
    have second : world.tree.locate true (Path.resolve settings.directory (utf8 "b.rs")) =
        .ok (.free (workplace ++ [utf8 "b.rs"]) false) := by cbv
    intro path member node
    obtain rfl | rfl : path = utf8 "a.rs" ∨ path = utf8 "b.rs" := by simpa [paths] using member
    · rw [first]
      intro same
      have place := (FileTree.Spot.taken.inj (Except.ok.inj same)).1
      exact absurd place (by decide)
    · rw [second]
      simp
  exact attempts_agree rfl (by decide) (by decide) (by decide) rfl (by decide) stands apart
    (Script.makesOne_of_program program_named) (Script.includesOne_of_program program_included)

end Fruit

end Tool

end DocPrologue
