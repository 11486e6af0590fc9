import DocPrologue.Proofs.Watching

/-!
Which inputs of a plan a watch follows. Registering ends at the first input whose directory is
missing, so that input and those in front of it are followed and the ones behind it are not, be it
the manifest itself. They stay until the next attempt whose plan can be made.
-/

namespace DocPrologue.Tool

section Register

variable {tree : FileTree} {watched directories inputs : List Bytes}

theorem nodup_addNew {paths : List Bytes} (distinct : paths.Nodup) (path : Bytes) :
    (addNew paths path).Nodup := by
  unfold addNew
  split
  · exact distinct
  · rename_i fresh
    have absent : path ∉ paths := by simpa using fresh
    rw [List.nodup_append]
    refine ⟨distinct, List.nodup_singleton _, ?_⟩
    rintro other member _ last rfl
    exact absent (List.mem_singleton.mp last ▸ member)

theorem nodup_register (distinct : watched.Nodup) :
    (register tree watched directories inputs).watched.Nodup := by
  induction inputs generalizing watched directories with
  | nil => exact distinct
  | cons input inputs ih =>
      rw [register_cons]
      split
      · exact nodup_addNew distinct _
      · exact ih (nodup_addNew distinct _)

end Register

namespace Watch

variable {interpreter : Interpreter} {watch : Watch} {paths : List Bytes}

structure Holds (watch : Watch) (paths : List Bytes) : Prop where
  distinct : watch.watched.Nodup
  mem_iff : ∀ path, path ∈ watch.watched ↔ path ∈ paths.map Path.clean

def plan? (interpreter : Interpreter) (watch : Watch) : Option Plan :=
  (Plan.make interpreter watch.settings watch.files watch.world).2.toOption

theorem holds_register {tree : FileTree} {directories inputs : List Bytes}
    (registered : watch.watched = (register tree [] directories inputs).watched) :
    watch.Holds (reached tree inputs) := by
  constructor
  · rw [registered]
    exact nodup_register List.nodup_nil
  · intro path
    rw [registered, mem_register_iff]
    simp

def reachedBy (interpreter : Interpreter) (paths : List Bytes) (watch : Watch)
    (burst : List Edit) : List Bytes :=
  if watch.notices burst then
    match (watch.edited burst).plan? interpreter with
    | some plan => reached ((watch.edited burst).regenerate interpreter).world.tree plan.inputs
    | none => paths
  else paths

def lastReached (interpreter : Interpreter) (paths : List Bytes) (watch : Watch) :
    List (List Edit) → List Bytes
  | [] => paths
  | burst :: bursts =>
    lastReached interpreter (watch.reachedBy interpreter paths burst)
      (watch.step interpreter burst) bursts

theorem holds_regenerate (holds : watch.Holds paths) :
    (watch.regenerate interpreter).Holds
      (match watch.plan? interpreter with
        | some plan => reached (watch.regenerate interpreter).world.tree plan.inputs
        | none => paths) := by
  rcases made : Plan.make interpreter watch.settings watch.files watch.world with
    ⟨world, failure | plan⟩
  · have unplanned : watch.plan? interpreter = none := by rw [plan?, made]; rfl
    rw [unplanned, regenerate_of_failure made]
    exact ⟨holds.distinct, holds.mem_iff⟩
  · have planned : watch.plan? interpreter = some plan := by rw [plan?, made]; rfl
    rw [planned]
    exact holds_register (regenerate_of_plan made).1

theorem holds_step (holds : watch.Holds paths) (burst : List Edit) :
    (watch.step interpreter burst).Holds (watch.reachedBy interpreter paths burst) := by
  have unchanged : (watch.edited burst).Holds paths := ⟨holds.distinct, holds.mem_iff⟩
  rw [reachedBy]
  cases noticed : watch.notices burst with
  | false =>
      rw [step_of_not_notices noticed]
      exact unchanged
  | true =>
      rw [step_of_notices noticed]
      exact holds_regenerate unchanged

theorem holds_run (holds : watch.Holds paths) (bursts : List (List Edit)) :
    (bursts.foldl (step interpreter) watch).Holds
      (watch.lastReached interpreter paths bursts) := by
  induction bursts generalizing watch paths with
  | nil => exact holds
  | cons burst bursts ih => exact ih (holds_step holds burst)

theorem start_holds {settings : Settings} {files : List Bytes} {plan : Plan} {world begun : World}
    (started : start settings files plan world = (begun, .ok watch)) :
    watch.settings = settings ∧ watch.files = files ∧ watch.Holds plan.inputs := by
  obtain ⟨tree, sameSettings, sameFiles, there, registered, -⟩ := start_eq_ok started
  have all : reached tree plan.inputs = plan.inputs :=
    reached_eq_self_iff.mpr fun input member => there input (List.dropLast_subset _ member)
  refine ⟨sameSettings, sameFiles, ?_⟩
  rw [← all]
  exact holds_register registered

end Watch

namespace Session

variable {interpreter : Interpreter} {watch : Watch}

theorem run_holds {version : Version} {environment : Environment} {arguments : List Bytes}
    {world : World}
    (waits : (run interpreter version environment arguments world).watch = some watch) :
    ∃ plan, (Plan.make interpreter watch.settings watch.files world).2 = .ok plan ∧
      watch.Holds plan.inputs := by
  unfold run at waits
  dsimp only at waits
  split at waits
  · contradiction
  · rename_i files parsed
    rw [Command.start_world parsed] at waits
    obtain ⟨planned, plan, begun, made, started⟩ := perform_watch waits
    obtain ⟨sameSettings, sameFiles, holds⟩ := Watch.start_holds started
    rw [sameSettings, sameFiles]
    exact ⟨plan, congrArg Prod.snd made, holds⟩

/-- A watch begins with all inputs of its first plan, and from then on follows exactly the inputs
that registering those of the last plan came to: all of them, if no directory but perhaps that of
the last one is missing. -/
theorem holds_lastReached {version : Version} {environment : Environment} {arguments : List Bytes}
    {world : World}
    (waits : (run interpreter version environment arguments world).watch = some watch) :
    (∃ plan, (Plan.make interpreter watch.settings watch.files world).2 = .ok plan ∧
      ∀ bursts : List (List Edit), (bursts.foldl (Watch.step interpreter) watch).Holds
        (watch.lastReached interpreter plan.inputs bursts)) ∧
    ∀ (bursts : List (List Edit)) (burst : List Edit) (plan : Plan),
      let before := bursts.foldl (Watch.step interpreter) watch
      before.notices burst = true → (before.edited burst).plan? interpreter = some plan →
      (∀ input ∈ plan.inputs.dropLast,
        HasDirectory (before.step interpreter burst).world.tree input) →
      (before.step interpreter burst).Holds plan.inputs := by
  obtain ⟨plan, made, holds⟩ := run_holds waits
  refine ⟨⟨plan, made, Watch.holds_run holds⟩, ?_⟩
  intro bursts burst last before noticed planned there
  have held : before.Holds (watch.lastReached interpreter plan.inputs bursts) :=
    Watch.holds_run holds bursts
  have next : (before.step interpreter burst).Holds _ := Watch.holds_step held burst
  rw [Watch.reachedBy, if_pos noticed, planned] at next
  dsimp only at next
  rw [Watch.step_of_notices noticed] at there
  rwa [reached_eq_self_iff.mpr there] at next

end Session

namespace MissingDirectory

open Text (utf8)
open MissingFile

def strayName : Bytes := utf8 "a/x.rs"

def straySource : Bytes :=
  utf8 "targets = [target(output = \"README.md\", files = [\"a/x.rs\"])]\n"

def slip : List Edit := [.write MissingFile.manifestName straySource]

def repair : List Edit := [.write MissingFile.manifestName plainSource]

def strayTree : FileTree :=
  ⟨[(workplace, .directory), (workplace ++ [outputName], .file (utf8 "old") outputMode),
    (workplace ++ [MissingFile.manifestName], .file straySource FileTree.newFileMode)], workplace⟩

def strayTarget : Target := ⟨outputName, .files [strayName], .raw, []⟩

def strayPlan : Plan := ⟨[⟨outputName, .target strayTarget⟩], [strayName, MissingFile.manifestName]⟩

def strayWatch : Watch :=
  { openedWatch with world := { openedWatch.world with tree := strayTree } }

theorem edited_slip : openedWatch.edited slip = strayWatch := by cbv

theorem strayTree_load : watchSettings.load Script.interpreter strayTree =
    (.ok ⟨[strayTarget], [strayName, MissingFile.manifestName]⟩, []) := by
  rw [Settings.load, manifestPath_watchSettings]
  refine Manifest.load_eq_ok_iff.mpr
    ⟨straySource, some (.list [.target strayTarget]), [], by cbv, by decide +kernel, ?_⟩
  exact Manifest.ofLeft_eq_ok_iff.mpr ⟨_, rfl, by decide +kernel, by cbv⟩

theorem make_strayWatch : Plan.make Script.interpreter watchSettings [] strayWatch.world =
    (strayWatch.world, .ok strayPlan) := by
  rw [Plan.make_loaded usesManifest_watchSettings [] strayWatch.world strayTree_load]
  rfl

theorem regenerate_strayWatch :
    (strayWatch.regenerate Script.interpreter).watched = [strayName] := by
  have ran : strayPlan.run true strayWatch.world =
      (strayWatch.world, some (.unreadable strayName ⟨.openFile, strayName, .notFound⟩)) := by cbv
  have registered : register strayTree [] strayWatch.directories strayPlan.inputs =
      ⟨[strayName], [Path.current], some .notFound⟩ := by cbv
  have made : Plan.make Script.interpreter strayWatch.settings strayWatch.files strayWatch.world =
      _ := make_strayWatch
  simp only [Watch.regenerate, made, ran, logFailure, World.log, World.report,
    show strayWatch.world.tree = strayTree from rfl, registered]

theorem notices_slip : openedWatch.notices slip = true := by cbv

theorem step_slip : openedWatch.step Script.interpreter slip =
    strayWatch.regenerate Script.interpreter := by
  rw [Watch.step_of_notices notices_slip, edited_slip]

theorem plan_slip : (openedWatch.edited slip).plan? Script.interpreter = some strayPlan := by
  have made : Plan.make Script.interpreter strayWatch.settings strayWatch.files strayWatch.world =
      _ := make_strayWatch
  rw [edited_slip, Watch.plan?, made]
  rfl

theorem holds_lastReached_slip :
    (Session.run Script.interpreter watchVersion [] watchArguments (.ofTree firstTree)).watch =
      some openedWatch ∧
      ∃ plan, (Plan.make Script.interpreter watchSettings [] (.ofTree firstTree)).2 = .ok plan ∧
        (openedWatch.step Script.interpreter slip).Holds
          (openedWatch.lastReached Script.interpreter plan.inputs [slip]) := by
  obtain ⟨⟨plan, made, holds⟩, -⟩ := Session.holds_lastReached firstTree_watch
  exact ⟨firstTree_watch, plan, made, holds [slip]⟩

/-- The plan is made, and still its second input is not followed: that is the manifest, and putting
it right changes nothing but the files. -/
theorem not_follows_manifest :
    (Session.run Script.interpreter watchVersion [] watchArguments (.ofTree firstTree)).watch =
      some openedWatch ∧
    openedWatch.notices slip = true ∧
    (openedWatch.edited slip).plan? Script.interpreter = some strayPlan ∧
    Path.clean MissingFile.manifestName ∈ strayPlan.inputs.map Path.clean ∧
    Path.clean MissingFile.manifestName ∉ (openedWatch.step Script.interpreter slip).watched ∧
    (openedWatch.step Script.interpreter slip).step Script.interpreter repair =
      (openedWatch.step Script.interpreter slip).edited repair := by
  have dropped : Path.clean MissingFile.manifestName ∉
      (openedWatch.step Script.interpreter slip).watched := by
    rw [step_slip, regenerate_strayWatch]
    decide +kernel
  have unnoticed : (openedWatch.step Script.interpreter slip).notices repair = false := by
    rw [repair, Watch.notices_singleton, ← Bool.not_eq_true, Watch.follows_iff]
    exact fun both => dropped both.1
  refine ⟨firstTree_watch, notices_slip, plan_slip, ?_, dropped, ?_⟩
  · exact List.mem_map_of_mem (by decide)
  · exact Watch.step_of_not_notices unnoticed

end MissingDirectory

end DocPrologue.Tool
