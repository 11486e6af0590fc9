import Mathlib.Data.List.Permutation
import DocPrologue.Tool.Session
import DocPrologue.Proofs.Dependencies

/-!
What a watch follows. An attempt that loads the manifest leaves exactly the paths followed that it
touched, and one that fails leaves those of the last attempt that loaded it. So a path that only a
failed attempt touched is not followed, and creating it does not start the next attempt.
-/

namespace DocPrologue

theorem World.logAll_tree (world : World) (messages : List Bytes) :
    (world.logAll messages).tree = world.tree := by
  induction messages generalizing world with
  | nil => rfl
  | cons message messages ih => exact ih (world.log message)

theorem Command.start_world {command : Command} {arguments files : List Bytes} {world : World}
    (parsed : (command.start arguments world).arguments = .ok files) :
    (command.start arguments world).world = world := by
  unfold start at parsed ⊢
  dsimp only at parsed ⊢
  split at parsed
  · contradiction
  · contradiction
  · split at parsed
    · contradiction
    · rename_i kept
      rw [if_neg kept]

namespace Manifest

def asked (interpreter : Interpreter) (read : Inclusion.Reader) (filename : Bytes) : List Bytes :=
  match read filename with
  | .error _ => []
  | .ok source =>
    ((interpreter.course filename source).run (contextOf interpreter read filename)).visited

def touched (interpreter : Interpreter) (read : Inclusion.Reader) (filename : Bytes) :
    List Bytes :=
  filename :: asked interpreter read filename ++
    match (load interpreter read filename).1 with
    | .error _ => []
    | .ok manifest => manifest.targets.flatMap Target.inputs

theorem mem_touched {interpreter : Interpreter} {read : Inclusion.Reader} {filename : Bytes}
    {manifest : Manifest} (loaded : (load interpreter read filename).1 = .ok manifest)
    (path : Bytes) : path ∈ touched interpreter read filename ↔ path ∈ manifest.inputs := by
  obtain ⟨source, left, visited, found, finished, done⟩ := load_eq_ok_iff.mp (Prod.ext loaded rfl)
  rw [mem_inputs done, touched, loaded]
  simp [asked, found, finished]

end Manifest

namespace Tool

def Settings.manifestPath (settings : Settings) : Bytes :=
  Path.resolve settings.directory settings.manifest

def Settings.load (settings : Settings) (interpreter : Interpreter) (tree : FileTree) :
    Except Failure Manifest × List Bytes :=
  Manifest.load interpreter tree.read settings.manifestPath

def Settings.touched (settings : Settings) (interpreter : Interpreter) (tree : FileTree) :
    List Bytes :=
  Manifest.touched interpreter tree.read settings.manifestPath

def HasDirectory (tree : FileTree) (path : Bytes) : Prop :=
  ∃ node, tree.node? true (Path.directory (Path.clean path)) = .ok node

def reached (tree : FileTree) : List Bytes → List Bytes
  | [] => []
  | input :: inputs =>
    match tree.node? true (Path.directory (Path.clean input)) with
    | .error _ => [input]
    | .ok _ => input :: reached tree inputs

section Register

variable {tree : FileTree} {watched directories inputs : List Bytes}

theorem mem_addNew {paths : List Bytes} {path other : Bytes} :
    other ∈ addNew paths path ↔ other ∈ paths ∨ other = path := by
  unfold addNew
  split
  · rename_i known
    have member : path ∈ paths := List.contains_iff_mem.mp known
    constructor
    · exact .inl
    · rintro (before | rfl)
      · exact before
      · exact member
  · rw [List.mem_append, List.mem_singleton]

theorem register_cons (input : Bytes) :
    register tree watched directories (input :: inputs) =
      match tree.node? true (Path.directory (Path.clean input)) with
      | .error cause => ⟨addNew watched (Path.clean input), directories, some cause⟩
      | .ok _ => register tree (addNew watched (Path.clean input))
          (addNew directories (Path.directory (Path.clean input))) inputs := rfl

theorem register_eq_none_iff :
    (register tree watched directories inputs).refusal = none ↔
      ∀ input ∈ inputs, HasDirectory tree input := by
  induction inputs generalizing watched directories with
  | nil => simp [register]
  | cons input inputs ih =>
      rw [register_cons, List.forall_mem_cons]
      cases place : tree.node? true (Path.directory (Path.clean input)) with
      | error cause => simp [HasDirectory, place]
      | ok node => simp [HasDirectory, place, ih]

theorem reached_eq_self_iff :
    reached tree inputs = inputs ↔ ∀ input ∈ inputs.dropLast, HasDirectory tree input := by
  induction inputs with
  | nil => simp [reached]
  | cons input inputs ih =>
      cases inputs with
      | nil =>
          rw [reached]
          cases tree.node? true (Path.directory (Path.clean input)) <;> simp [reached]
      | cons next inputs =>
          rw [List.dropLast_cons_cons, List.forall_mem_cons, ← ih, reached]
          cases place : tree.node? true (Path.directory (Path.clean input)) with
          | error cause => simp [HasDirectory, place]
          | ok node => simp [HasDirectory, place]

theorem mem_register_iff (path : Bytes) :
    path ∈ (register tree watched directories inputs).watched ↔
      path ∈ watched ∨ path ∈ (reached tree inputs).map Path.clean := by
  induction inputs generalizing watched directories with
  | nil => simp [register, reached]
  | cons input inputs ih =>
      rw [register_cons, reached]
      cases tree.node? true (Path.directory (Path.clean input)) with
      | error cause =>
          dsimp only
          rw [mem_addNew, List.map_singleton, List.mem_singleton]
      | ok node =>
          dsimp only
          rw [ih, mem_addNew, List.map_cons, List.mem_cons, or_assoc]

theorem mem_register (watched directories : List Bytes)
    (there : ∀ input ∈ inputs, HasDirectory tree input) (path : Bytes) :
    path ∈ (register tree watched directories inputs).watched ↔
      path ∈ watched ∨ path ∈ inputs.map Path.clean := by
  have all : reached tree inputs = inputs :=
    reached_eq_self_iff.mpr fun input member => there input (List.dropLast_subset _ member)
  rw [mem_register_iff, all]

theorem directories_subset_register :
    directories ⊆ (register tree watched directories inputs).directories := by
  induction inputs generalizing watched directories with
  | nil => exact List.Subset.refl _
  | cons input inputs ih =>
      rw [register_cons]
      split
      · exact List.Subset.refl _
      · exact fun directory member => ih (mem_addNew.mpr (.inl member))

theorem directory_mem_register (there : ∀ input ∈ inputs, HasDirectory tree input) {path : Bytes}
    (member : path ∈ inputs.map Path.clean) :
    Path.directory path ∈ (register tree watched directories inputs).directories := by
  induction inputs generalizing watched directories with
  | nil => simp at member
  | cons input inputs ih =>
      obtain ⟨⟨node, place⟩, others⟩ := List.forall_mem_cons.mp there
      rw [register_cons, place]
      dsimp only
      rcases List.mem_cons.mp member with rfl | later
      · exact directories_subset_register (mem_addNew.mpr (.inr rfl))
      · exact ih others later

end Register

theorem Plan.make_manifest {settings : Settings} (mode : settings.usesManifest = true)
    (interpreter : Interpreter) (files : List Bytes) (world : World) :
    Plan.make interpreter settings files world =
      (world.logAll (settings.load interpreter world.tree).2,
        match (settings.load interpreter world.tree).1 with
        | .error failure => .error failure
        | .ok manifest => .ok (ofManifest manifest)) := by
  unfold make
  rw [if_pos mode]
  rcases shape : settings.load interpreter world.tree with ⟨failure | manifest, printed⟩ <;>
    simp only [show Manifest.load interpreter world.tree.read
      (Path.resolve settings.directory settings.manifest) = _ from shape]

theorem Plan.make_loaded {interpreter : Interpreter} {settings : Settings} {manifest : Manifest}
    {printed : List Bytes} (mode : settings.usesManifest = true) (files : List Bytes)
    (world : World) (loaded : settings.load interpreter world.tree = (.ok manifest, printed)) :
    Plan.make interpreter settings files world =
      (world.logAll printed, .ok (ofManifest manifest)) := by
  rw [make_manifest mode, loaded]

namespace Watch

variable {interpreter : Interpreter} {watch : Watch} {paths : List Bytes}

def Covers (watch : Watch) (paths : List Bytes) : Prop :=
  ∀ path, watch.follows path = true ↔ Path.clean path ∈ paths.map Path.clean

theorem Covers.congr {others : List Bytes} (covers : watch.Covers paths)
    (same : ∀ path, path ∈ paths ↔ path ∈ others) : watch.Covers others := by
  intro path
  rw [covers path]
  simp [same]

theorem follows_iff (path : Bytes) : watch.follows path = true ↔
    Path.clean path ∈ watch.watched ∧
      Path.directory (Path.clean path) ∈ watch.directories := by
  rw [follows, Bool.and_eq_true, List.contains_iff_mem, List.contains_iff_mem]

theorem covers_register {tree : FileTree} {directories inputs : List Bytes}
    (there : ∀ input ∈ inputs, HasDirectory tree input)
    (isWatched : watch.watched = (register tree [] directories inputs).watched)
    (isSeen : watch.directories = (register tree [] directories inputs).directories) :
    watch.Covers inputs := by
  intro path
  rw [follows_iff, isWatched, isSeen, mem_register [] directories there]
  constructor
  · rintro ⟨before | member, -⟩
    · simp at before
    · exact member
  · exact fun member => ⟨.inr member, directory_mem_register there member⟩

theorem regenerate_settings : (watch.regenerate interpreter).settings = watch.settings := by
  unfold regenerate
  split
  · rfl
  · dsimp only
    split <;> rfl

theorem regenerate_of_failure {world : World} {failure : Failure}
    (failed : Plan.make interpreter watch.settings watch.files watch.world =
      (world, .error failure)) :
    watch.regenerate interpreter = { watch with world := world.log failure.message } := by
  unfold regenerate
  rw [failed]

theorem regenerate_of_plan {world : World} {plan : Plan}
    (made : Plan.make interpreter watch.settings watch.files watch.world = (world, .ok plan)) :
    let registered :=
      register (watch.regenerate interpreter).world.tree [] watch.directories plan.inputs
    (watch.regenerate interpreter).watched = registered.watched ∧
      (watch.regenerate interpreter).directories = registered.directories := by
  unfold regenerate
  rw [made]
  dsimp only
  generalize logFailure (plan.run true world).1 (plan.run true world).2 = done
  rcases shape : register done.tree [] watch.directories plan.inputs with
    ⟨watched, directories, _ | cause⟩
  · dsimp only
    rw [shape]
    exact ⟨rfl, rfl⟩
  · dsimp only [World.log, World.report]
    rw [shape]
    exact ⟨rfl, rfl⟩

theorem regenerate_of_unloaded (mode : watch.settings.usesManifest = true) {failure : Failure}
    (failed : (watch.settings.load interpreter watch.world.tree).1 = .error failure) :
    (watch.regenerate interpreter).watched = watch.watched ∧
      (watch.regenerate interpreter).directories = watch.directories ∧
      (watch.regenerate interpreter).world.tree = watch.world.tree := by
  have made := Plan.make_manifest mode interpreter watch.files watch.world
  rw [failed] at made
  rw [regenerate_of_failure made]
  exact ⟨rfl, rfl, World.logAll_tree watch.world _⟩

theorem step_of_notices {burst : List Edit} (noticed : watch.notices burst = true) :
    watch.step interpreter burst = (watch.edited burst).regenerate interpreter := by
  rw [step, if_pos noticed]

theorem step_of_not_notices {burst : List Edit} (unnoticed : watch.notices burst = false) :
    watch.step interpreter burst = watch.edited burst := by
  rw [step, if_neg (by simp [unnoticed])]

theorem notices_singleton (edit : Edit) : watch.notices [edit] = watch.follows edit.path := by
  rw [notices, List.any_cons, List.any_nil, Bool.or_false]

theorem step_settings (burst : List Edit) :
    (watch.step interpreter burst).settings = watch.settings := by
  unfold step
  split
  · exact regenerate_settings
  · rfl

def touched (interpreter : Interpreter) (watch : Watch) : List Bytes :=
  watch.settings.touched interpreter watch.world.tree

def loads (interpreter : Interpreter) (watch : Watch) : Bool :=
  (watch.settings.load interpreter watch.world.tree).1.isOk

/-- The directories of all paths that an attempt touches are there when it registers them. -/
def Reaches (interpreter : Interpreter) (watch : Watch) : Prop :=
  ∀ path ∈ watch.touched interpreter, HasDirectory (watch.regenerate interpreter).world.tree path

theorem covers_regenerate (mode : watch.settings.usesManifest = true) (covers : watch.Covers paths)
    (reaches : watch.Reaches interpreter) :
    (watch.regenerate interpreter).Covers
      (if watch.loads interpreter then watch.touched interpreter else paths) := by
  cases outcome : (watch.settings.load interpreter watch.world.tree).1 with
  | error failure =>
      have unloaded : watch.loads interpreter = false := by rw [loads, outcome]; rfl
      obtain ⟨sameWatched, sameDirectories, -⟩ := regenerate_of_unloaded mode outcome
      intro path
      rw [unloaded, follows_iff, sameWatched, sameDirectories, ← follows_iff]
      exact covers path
  | ok manifest =>
      have loaded : watch.loads interpreter = true := by rw [loads, outcome]; rfl
      have same : ∀ path, path ∈ watch.touched interpreter ↔ path ∈ manifest.inputs :=
        Manifest.mem_touched outcome
      have made := Plan.make_manifest mode interpreter watch.files watch.world
      rw [outcome] at made
      obtain ⟨isWatched, isSeen⟩ := regenerate_of_plan made
      have registered := covers_register
        (fun input member => reaches input ((same input).mpr member)) isWatched isSeen
      rw [loaded]
      exact registered.congr fun path => (same path).symm

def loadedBy (interpreter : Interpreter) (paths : List Bytes) (watch : Watch)
    (burst : List Edit) : List Bytes :=
  if watch.notices burst && (watch.edited burst).loads interpreter then
    (watch.edited burst).touched interpreter
  else paths

def lastLoaded (interpreter : Interpreter) (paths : List Bytes) (watch : Watch) :
    List (List Edit) → List Bytes
  | [] => paths
  | burst :: bursts =>
    lastLoaded interpreter (watch.loadedBy interpreter paths burst) (watch.step interpreter burst)
      bursts

def KeepsDirectories (interpreter : Interpreter) (watch : Watch) : List (List Edit) → Prop
  | [] => True
  | burst :: bursts =>
    (watch.notices burst = true → (watch.edited burst).Reaches interpreter) ∧
      KeepsDirectories interpreter (watch.step interpreter burst) bursts

theorem covers_step (mode : watch.settings.usesManifest = true) (covers : watch.Covers paths)
    (burst : List Edit)
    (reaches : watch.notices burst = true → (watch.edited burst).Reaches interpreter) :
    (watch.step interpreter burst).Covers (watch.loadedBy interpreter paths burst) := by
  have unchanged : (watch.edited burst).Covers paths := covers
  rw [loadedBy]
  cases noticed : watch.notices burst with
  | false =>
      rw [step_of_not_notices noticed]
      exact unchanged
  | true =>
      rw [step_of_notices noticed]
      exact covers_regenerate mode unchanged (reaches noticed)

theorem covers_run (mode : watch.settings.usesManifest = true) (covers : watch.Covers paths)
    (bursts : List (List Edit)) (keeps : watch.KeepsDirectories interpreter bursts) :
    (bursts.foldl (step interpreter) watch).Covers
      (watch.lastLoaded interpreter paths bursts) := by
  induction bursts generalizing watch paths with
  | nil => exact covers
  | cons burst bursts ih =>
      have next := covers_step mode covers burst keeps.1
      rw [List.foldl_cons]
      exact ih (by rw [step_settings]; exact mode) next keeps.2

theorem keepsDirectories_append {bursts : List (List Edit)} {burst : List Edit} :
    watch.KeepsDirectories interpreter (bursts ++ [burst]) ↔
      watch.KeepsDirectories interpreter bursts ∧
        ((bursts.foldl (step interpreter) watch).notices burst = true →
          ((bursts.foldl (step interpreter) watch).edited burst).Reaches interpreter) := by
  induction bursts generalizing watch with
  | nil => simp [KeepsDirectories]
  | cons first bursts ih =>
      rw [List.cons_append, KeepsDirectories, ih, KeepsDirectories, List.foldl_cons, and_assoc]

theorem run_settings (bursts : List (List Edit)) :
    (bursts.foldl (step interpreter) watch).settings = watch.settings := by
  induction bursts generalizing watch with
  | nil => rfl
  | cons burst bursts ih => rw [List.foldl_cons, ih, step_settings]

theorem start_eq_ok {settings : Settings} {files : List Bytes} {plan : Plan} {world begun : World}
    (started : start settings files plan world = (begun, .ok watch)) :
    ∃ tree, watch.settings = settings ∧ watch.files = files ∧
      (∀ input ∈ plan.inputs, HasDirectory tree input) ∧
      watch.watched = (register tree [] [] plan.inputs).watched ∧
      watch.directories = (register tree [] [] plan.inputs).directories := by
  unfold start at started
  dsimp only at started
  generalize logFailure (plan.run true world).1 (plan.run true world).2 = done at started
  rcases shape : register done.tree [] [] plan.inputs with ⟨watched, directories, _ | cause⟩
  · rw [shape] at started
    obtain ⟨rfl, same⟩ := Prod.mk.inj started
    cases same
    refine ⟨done.tree, rfl, rfl, register_eq_none_iff.mp (congrArg (·.refusal) shape), ?_⟩
    rw [shape]
    exact ⟨rfl, rfl⟩
  · rw [shape] at started
    simp at started

theorem start_covers {settings : Settings} {files : List Bytes} {plan : Plan} {world begun : World}
    (started : start settings files plan world = (begun, .ok watch)) :
    watch.settings = settings ∧ watch.Covers plan.inputs := by
  obtain ⟨tree, sameSettings, -, there, isWatched, isSeen⟩ := start_eq_ok started
  exact ⟨sameSettings, covers_register there isWatched isSeen⟩

end Watch

namespace Session

variable {interpreter : Interpreter} {watch : Watch}

theorem perform_watch {settings : Settings} {files : List Bytes} {world : World}
    (waits : (perform interpreter settings files world).watch = some watch) :
    ∃ planned plan begun, Plan.make interpreter settings files world = (planned, .ok plan) ∧
      Watch.start settings files plan planned = (begun, .ok watch) := by
  unfold perform at waits
  split at waits
  · contradiction
  · split at waits
    · contradiction
    · rename_i planned plan made
      split at waits
      · split at waits
        · contradiction
        · rename_i begun watch started
          cases waits
          exact ⟨planned, plan, begun, made, started⟩
      · contradiction

theorem perform_covers {settings : Settings} {files : List Bytes} {world : World}
    (waits : (perform interpreter settings files world).watch = some watch)
    (mode : watch.settings.usesManifest = true) :
    watch.Covers (watch.settings.touched interpreter world.tree) := by
  obtain ⟨planned, plan, begun, made, started⟩ := perform_watch waits
  obtain ⟨rfl, covers⟩ := Watch.start_covers started
  rw [Plan.make_manifest mode] at made
  cases outcome : (watch.settings.load interpreter world.tree).1 with
  | error failure => simp [outcome] at made
  | ok manifest =>
      rw [outcome] at made
      obtain ⟨-, same⟩ := Prod.mk.inj made
      cases same
      exact covers.congr fun path => (Manifest.mem_touched outcome path).symm

theorem run_covers {version : Version} {environment : Environment} {arguments : List Bytes}
    {world : World}
    (waits : (run interpreter version environment arguments world).watch = some watch)
    (mode : watch.settings.usesManifest = true) :
    watch.Covers (watch.settings.touched interpreter world.tree) := by
  unfold run at waits
  dsimp only at waits
  split at waits
  · contradiction
  · rename_i files parsed
    rw [Command.start_world parsed] at waits
    exact perform_covers waits mode

/-- After an attempt that loaded the manifest, all paths that it touched are followed. After one
that failed, those are which the last attempt that loaded it had touched too, and no others. -/
theorem follows_touched {version : Version} {environment : Environment} {arguments : List Bytes}
    {world : World}
    (waits : (run interpreter version environment arguments world).watch = some watch)
    (mode : watch.settings.usesManifest = true) (bursts : List (List Edit)) (burst : List Edit)
    (keeps : watch.KeepsDirectories interpreter (bursts ++ [burst]))
    (attempt : (bursts.foldl (Watch.step interpreter) watch).notices burst = true) :
    let attempted := (bursts.foldl (Watch.step interpreter) watch).edited burst
    ∀ path ∈ attempted.touched interpreter,
      ((bursts ++ [burst]).foldl (Watch.step interpreter) watch).follows path = true ↔
        attempted.loads interpreter = true ∨
          Path.clean path ∈ (watch.lastLoaded interpreter
            (watch.settings.touched interpreter world.tree) bursts).map Path.clean := by
  intro attempted path member
  obtain ⟨before, reaches⟩ := Watch.keepsDirectories_append.mp keeps
  have covered := Watch.covers_run mode (run_covers waits mode) bursts before
  have settled : (bursts.foldl (Watch.step interpreter) watch).settings.usesManifest = true := by
    rw [Watch.run_settings]
    exact mode
  have covers := Watch.covers_step settled covered burst reaches
  rw [List.foldl_append, List.foldl_cons, List.foldl_nil, covers path, Watch.loadedBy, attempt,
    Bool.true_and]
  cases attempted.loads interpreter with
  | true => simpa using ⟨path, member, rfl⟩
  | false => simp

end Session

namespace MissingFile

open Text (utf8)
open Interpreter (Item Value)

def manifestName : Bytes := utf8 "includedocs.star"

def outputName : Bytes := utf8 "README.md"

def missingName : Bytes := utf8 "new.rs"

def plainSource : Bytes := utf8 "targets = [target(output = \"README.md\", text = \"old\")]\n"

def includingSource : Bytes :=
  utf8 "targets = [target(output = \"README.md\", text = docs.include(\"new.rs\"))]\n"

def revision : List Edit := [.write manifestName includingSource]

def creation : List Edit := [.write missingName (utf8 "//! New\n")]

def workplace : Location := [utf8 "d"]

def firstTree : FileTree :=
  ⟨[(workplace, .directory),
    (workplace ++ [manifestName], .file plainSource FileTree.newFileMode)], workplace⟩

def writtenTree : FileTree :=
  ⟨firstTree.entries ++ [(workplace ++ [outputName], .file (utf8 "old") outputMode)], workplace⟩

def revisedTree : FileTree :=
  ⟨[(workplace, .directory), (workplace ++ [outputName], .file (utf8 "old") outputMode),
    (workplace ++ [manifestName], .file includingSource FileTree.newFileMode)], workplace⟩

def watchVersion : Version := .development [] [] []

def watchArguments : List Bytes := [utf8 "-watch", utf8 "-manifest", manifestName]

def watchSettings : Settings := ⟨Path.current, [], [], [], manifestName, true⟩

def plainTarget : Target := ⟨outputName, .text (utf8 "old"), .raw, []⟩

def plainPlan : Plan := ⟨[⟨outputName, .target plainTarget⟩], [manifestName]⟩

def openedWatch : Watch :=
  ⟨watchSettings, [], [manifestName], [Path.current],
    ⟨writtenTree, [], utf8 "Wrote README.md.\nWatching 1 files.\n", none, none⟩⟩

def revisedWatch : Watch :=
  { openedWatch with world := { openedWatch.world with tree := revisedTree } }

theorem usesManifest_watchSettings : watchSettings.usesManifest = true := by cbv

theorem manifestPath_watchSettings : watchSettings.manifestPath = manifestName := by cbv

theorem firstTree_load : watchSettings.load Script.interpreter firstTree =
    (.ok ⟨[plainTarget], [manifestName]⟩, []) := by
  rw [Settings.load, manifestPath_watchSettings]
  refine Manifest.load_eq_ok_iff.mpr
    ⟨plainSource, some (.list [.target plainTarget]), [], by cbv, by decide +kernel, ?_⟩
  exact Manifest.ofLeft_eq_ok_iff.mpr ⟨_, rfl, by decide +kernel, by cbv⟩

theorem firstTree_watch :
    (Session.run Script.interpreter watchVersion [] watchArguments (.ofTree firstTree)).watch =
      some openedWatch := by
  have parsed : ((command watchVersion).start watchArguments (.ofTree firstTree)).arguments =
      .ok [] := by decide +kernel
  have settled : (Settings.ofFlags
      ((command watchVersion).start watchArguments (.ofTree firstTree)).values).complete [] =
      watchSettings := by decide +kernel
  have valid : watchSettings.validate [] = .ok () := by cbv
  have made : Plan.make Script.interpreter watchSettings [] (.ofTree firstTree) =
      (.ofTree firstTree, .ok plainPlan) := by
    rw [Plan.make_loaded usesManifest_watchSettings [] (.ofTree firstTree) firstTree_load]
    rfl
  have started : Watch.start watchSettings [] plainPlan (.ofTree firstTree) =
      (openedWatch.world, .ok openedWatch) := by cbv
  simp only [Session.run, parsed, Command.start_world parsed, settled, Session.perform, valid, made,
    started]
  rfl

def absentFiles : Inclusion.Reader := fun path => .error ⟨.openFile, path, .notFound⟩

def includingCourse : Interpreter.Course (Option Value) :=
  Script.interpreter.course manifestName includingSource

theorem includingCourse_run :
    includingCourse.run (Manifest.contextOf Script.interpreter revisedTree.read manifestName) =
      ⟨.error (.raised (.unreadable missingName ⟨.openFile, missingName, .notFound⟩)), [],
        [missingName]⟩ := by
  have absent :
      includingCourse.run (Manifest.contextOf Script.interpreter absentFiles manifestName) =
        ⟨.error (.raised (.unreadable missingName ⟨.openFile, missingName, .notFound⟩)), [],
          [missingName]⟩ := by
    decide +kernel
  rw [← absent]
  refine @Interpreter.Course.run_congr _
    (Manifest.contextOf Script.interpreter absentFiles manifestName) revisedTree.read
    includingCourse ?_
  intro path member
  rw [absent, List.mem_singleton] at member
  rw [member]
  cbv

theorem revisedTree_read : revisedTree.read manifestName = .ok includingSource := by cbv

theorem revisedTree_load :
    ∃ failure, (watchSettings.load Script.interpreter revisedTree).1 = .error failure := by
  rw [Settings.load, manifestPath_watchSettings]
  exact ⟨_, Manifest.load_of_failed revisedTree_read (congrArg (·.result) includingCourse_run)⟩

theorem revisedWatch_touched :
    revisedWatch.touched Script.interpreter = [manifestName, missingName] := by
  have asked : Manifest.asked Script.interpreter revisedTree.read manifestName = [missingName] := by
    rw [Manifest.asked, revisedTree_read]
    exact congrArg (·.visited) includingCourse_run
  obtain ⟨failure, failed⟩ := revisedTree_load
  rw [Settings.load, manifestPath_watchSettings] at failed
  change watchSettings.touched Script.interpreter revisedTree = _
  rw [Settings.touched, manifestPath_watchSettings, Manifest.touched, asked, failed]
  rfl

theorem edited_revision : openedWatch.edited revision = revisedWatch := by cbv

theorem regenerate_revisedWatch :
    (revisedWatch.regenerate Script.interpreter).watched = [manifestName] ∧
      (revisedWatch.regenerate Script.interpreter).world.tree = revisedTree := by
  obtain ⟨failure, failed⟩ := revisedTree_load
  have mode : revisedWatch.settings.usesManifest = true := usesManifest_watchSettings
  obtain ⟨sameWatched, -, sameTree⟩ := Watch.regenerate_of_unloaded mode failed
  exact ⟨sameWatched, sameTree⟩

theorem keepsDirectories_revision :
    openedWatch.KeepsDirectories Script.interpreter [revision] := by
  refine ⟨fun _ => ?_, trivial⟩
  have here : revisedTree.node? true Path.current = .ok .directory := by cbv
  intro path member
  rw [edited_revision] at member ⊢
  rw [revisedWatch_touched] at member
  rw [regenerate_revisedWatch.2]
  have first : Path.directory (Path.clean manifestName) = Path.current := by cbv
  have second : Path.directory (Path.clean missingName) = Path.current := by cbv
  obtain rfl | rfl : path = manifestName ∨ path = missingName := by simpa using member
  · exact ⟨.directory, by rw [first, here]⟩
  · exact ⟨.directory, by rw [second, here]⟩

theorem notices_revision : openedWatch.notices revision = true := by cbv

theorem step_revision : openedWatch.step Script.interpreter revision =
    revisedWatch.regenerate Script.interpreter := by
  rw [Watch.step_of_notices notices_revision, edited_revision]

theorem follows_missing :
    (openedWatch.step Script.interpreter revision).follows missingName = false := by
  have unwatched : [manifestName].contains (Path.clean missingName) = false := by cbv
  rw [step_revision, Watch.follows, regenerate_revisedWatch.1, unwatched, Bool.false_and]

theorem follows_touched_revision :
    (Session.run Script.interpreter watchVersion [] watchArguments (.ofTree firstTree)).watch =
      some openedWatch ∧
    openedWatch.settings.usesManifest = true ∧
    openedWatch.KeepsDirectories Script.interpreter [revision] ∧
    openedWatch.notices revision = true ∧
    ∀ path ∈ revisedWatch.touched Script.interpreter,
      (openedWatch.step Script.interpreter revision).follows path = true ↔
        revisedWatch.loads Script.interpreter = true ∨
          Path.clean path ∈
            (watchSettings.touched Script.interpreter firstTree).map Path.clean := by
  refine ⟨firstTree_watch, usesManifest_watchSettings, keepsDirectories_revision,
    notices_revision, ?_⟩
  rw [← edited_revision]
  exact Session.follows_touched firstTree_watch usesManifest_watchSettings [] revision
    keepsDirectories_revision notices_revision

/-- A manifest begins to include a file that is missing. The attempt fails for that file, and still
the file is not followed: creating it changes nothing but the files. -/
theorem not_follows_missing :
    (Session.run Script.interpreter watchVersion [] watchArguments (.ofTree firstTree)).watch =
      some openedWatch ∧
    openedWatch.KeepsDirectories Script.interpreter [revision] ∧
    openedWatch.notices revision = true ∧
    missingName ∈ (openedWatch.edited revision).touched Script.interpreter ∧
    (openedWatch.step Script.interpreter revision).follows missingName = false ∧
    (openedWatch.step Script.interpreter revision).step Script.interpreter creation =
      (openedWatch.step Script.interpreter revision).edited creation := by
  refine ⟨firstTree_watch, keepsDirectories_revision, notices_revision, ?_, follows_missing, ?_⟩
  · rw [edited_revision, revisedWatch_touched]
    decide
  · have unnoticed :
        (openedWatch.step Script.interpreter revision).notices creation = false := by
      rw [creation, Watch.notices_singleton]
      exact follows_missing
    exact Watch.step_of_not_notices unnoticed

end MissingFile

end Tool

end DocPrologue
