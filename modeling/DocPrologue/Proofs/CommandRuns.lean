import DocPrologue.Proofs.Passes
import DocPrologue.Proofs.Watching

/-!
Runs without a watch. What goes wrong before the first job leaves the files and the standard output
alone, and so does every failure of a run for given files, but for what a failing write has taken:
its only effect is the last thing it does.
-/

namespace DocPrologue

structure World.OnlyLogs (before after : World) : Prop where
  tree : after.tree = before.tree
  stdout : after.stdout = before.stdout

section OnlyLogs

variable {before between after : World}

theorem World.OnlyLogs.refl (world : World) : world.OnlyLogs world := ⟨rfl, rfl⟩

theorem World.OnlyLogs.trans (front : before.OnlyLogs between) (back : between.OnlyLogs after) :
    before.OnlyLogs after :=
  ⟨back.tree.trans front.tree, back.stdout.trans front.stdout⟩

theorem World.onlyLogs_logAll (world : World) (messages : List Bytes) :
    world.OnlyLogs (world.logAll messages) := by
  refine ⟨world.logAll_tree messages, ?_⟩
  induction messages generalizing world with
  | nil => rfl
  | cons message messages ih => exact ih (world.log message)

theorem Command.onlyLogs_start (command : Command) (arguments : List Bytes) (world : World) :
    world.OnlyLogs (command.start arguments world).world := by
  unfold start
  dsimp only
  split
  · exact ⟨rfl, rfl⟩
  · exact ⟨rfl, rfl⟩
  · split
    · exact ⟨rfl, rfl⟩
    · exact .refl world

end OnlyLogs

def Failure.concernsCall (failure : Failure) : Bool :=
  !failure.isPrintable || failure.causes.contains .invalidArguments

theorem GenerationError.concernsCall_toFailure (error : GenerationError) :
    error.toFailure.concernsCall = false := by
  rcases error with (_ | _ | _) | (_ | _ | _) <;> rfl

theorem FileTree.concernsCall_replaceFile {tree : FileTree} {fault : Option FillFault}
    {path data : Bytes} {mode : Nat} {failure : Failure}
    (failed : (tree.replaceFile fault path data mode).1 = .error failure) :
    failure.concernsCall = false := by
  unfold replaceFile at failed
  split at failed
  · cases failed
    rfl
  · split at failed
    · cases failed
      rfl
    · dsimp only at failed
      split at failed
      · cases failed
        rfl
      · cases failed

theorem FileTree.concernsCall_writeAtomically {tree : FileTree} {fault : Option FillFault}
    {path data : Bytes} {mode : Nat} {failure : Failure}
    (failed : (tree.writeAtomically fault path data mode).1 = .error failure) :
    failure.concernsCall = false := by
  unfold writeAtomically at failed
  split at failed
  · split at failed
    · cases failed
    · exact concernsCall_replaceFile failed
  · split at failed
    · exact concernsCall_replaceFile failed
    · cases failed
      rfl

namespace Tool

theorem Job.Fails.concernsCall {job : Job} {world : World} {failure : Failure}
    (fails : job.Fails world failure) : failure.concernsCall = false := by
  cases fails with
  | generation _ => exact GenerationError.concernsCall_toFailure _
  | printing _ _ refused =>
      unfold World.print at refused
      split at refused
      · cases refused
        rfl
      · cases refused
  | writing _ _ refused => exact FileTree.concernsCall_writeAtomically refused

section Plans

variable {interpreter : Interpreter} {settings : Settings} {files : List Bytes}
  {world planned : World} {plan : Plan} {failure : Failure}

theorem Plan.concernsCall_run {verbose : Bool}
    (failed : (plan.run verbose world).2 = some failure) : failure.concernsCall = false := by
  obtain ⟨finished, stopped, between, -, -, ⟨-, whole⟩ | ⟨job, _, after, other, -, ran, whole⟩⟩ :=
    runJobs_split verbose plan.jobs world
  · rw [run, whole] at failed
    cases failed
  · rw [run, whole] at failed
    cases failed
    exact (Job.run_eq_some ran).2.1.concernsCall

theorem Plan.make_files (direct : settings.usesManifest = false) :
    make interpreter settings files world = (world, ofFiles settings files) := by
  rw [make, if_neg (by simp [direct])]

theorem Plan.ofFiles_eq_ok (made : ofFiles settings files = .ok plan) :
    ∃ format, Format.parse settings.format = .ok format ∧
      plan.jobs =
        [⟨settings.output, .files settings.directory files format settings.package⟩] := by
  unfold ofFiles at made
  split at made
  · cases made
  · rename_i format parsed
    cases made
    exact ⟨format, parsed, rfl⟩

theorem Plan.onlyLogs_make (interpreter : Interpreter) (settings : Settings) (files : List Bytes)
    (world : World) : world.OnlyLogs (make interpreter settings files world).1 := by
  cases mode : settings.usesManifest with
  | true =>
      rw [make_manifest mode]
      exact world.onlyLogs_logAll _
  | false =>
      rw [make_files mode]
      exact .refl world

theorem Work.generate_files_eq_ok {tree : FileTree} {directory package data : Bytes}
    {format : Format}
    (generated : (Work.files directory files format package).generate tree = .ok data) :
    ∃ text, tree.collect directory files = .ok text ∧ format.render package text = .ok data := by
  rw [generate.eq_1] at generated
  split at generated
  · cases generated
  · rename_i text collected
    split at generated
    · cases generated
    · rename_i rendered
      cases generated
      exact ⟨text, collected, rendered⟩

theorem Plan.run_singleton {verbose : Bool} {job : Job} (only : plan.jobs = [job]) :
    plan.run verbose world = job.run verbose world := by
  rw [run, only, runJobs]
  rcases job.run verbose world with ⟨after, _ | failure⟩ <;> rfl

end Plans

namespace Session

section Perform

variable {interpreter : Interpreter} {settings : Settings} {files : List Bytes} {world : World}
  {failure : Failure}

theorem perform_settings : (perform interpreter settings files world).settings = settings := by
  unfold perform
  split
  · rfl
  · split
    · rfl
    · split
      · split <;> rfl
      · rfl

/-- A run without a watch ends before its first job, or with the one pass that it makes. -/
theorem perform_cases (interpreter : Interpreter) (files : List Bytes) (world : World)
    (once : settings.watch = false) :
    (∃ after failure,
      perform interpreter settings files world = ended settings after (some failure) ∧
      world.OnlyLogs after) ∨
    ∃ planned plan, Plan.make interpreter settings files world = (planned, .ok plan) ∧
      perform interpreter settings files world =
        ended settings (plan.run false planned).1 (plan.run false planned).2 := by
  unfold perform
  cases settings.validate files with
  | error failure => exact .inl ⟨world, failure, rfl, .refl world⟩
  | ok =>
      have spared := Plan.onlyLogs_make interpreter settings files world
      rcases made : Plan.make interpreter settings files world with ⟨planned, failure | plan⟩
      · rw [made] at spared
        exact .inl ⟨planned, failure, rfl, spared⟩
      · refine .inr ⟨planned, plan, rfl, ?_⟩
        dsimp only
        rw [if_neg (by simp [once])]

def FailsClean (interpreter : Interpreter) (settings : Settings) (tree : FileTree)
    (failure : Failure) : Prop :=
  failure.concernsCall = true ∨ (settings.load interpreter tree).1 = .error failure ∨
    settings.usesManifest = false

theorem perform_direct {planned : World} {plan : Plan} (direct : settings.usesManifest = false)
    (made : Plan.make interpreter settings files world = (planned, .ok plan)) :
    planned = world ∧ ∃ format, Format.parse settings.format = .ok format ∧
      ∀ verbose, plan.run verbose planned = Job.run verbose
        ⟨settings.output, .files settings.directory files format settings.package⟩ world := by
  rw [Plan.make_files direct] at made
  obtain ⟨rfl, formed⟩ := Prod.mk.inj made
  obtain ⟨format, parsed, only⟩ := Plan.ofFiles_eq_ok formed
  exact ⟨rfl, format, parsed, fun _ => Plan.run_singleton only⟩

/-- The write of what a run for given files generates to the standard output fails, and has taken
some of it. -/
def CutsOffOutput (settings : Settings) (files : List Bytes) (before : World) (failure : Failure)
    (after : World) : Prop :=
  settings.output = [] ∧ ∃ format data, Format.parse settings.format = .ok format ∧
    (Work.files settings.directory files format settings.package).generate before.tree = .ok data ∧
    CutsOff before data failure after

theorem perform_failed (once : settings.watch = false)
    (failed : (perform interpreter settings files world).failure = some failure)
    (clean : FailsClean interpreter settings world.tree failure) :
    (perform interpreter settings files world).world.tree = world.tree ∧
      ((perform interpreter settings files world).world.stdout = world.stdout ∨
        CutsOffOutput settings files world failure
          (perform interpreter settings files world).world) := by
  rcases perform_cases interpreter files world once with
    ⟨after, _, ends, spared⟩ | ⟨planned, plan, made, ends⟩
  · rw [ends]
    exact ⟨spared.tree, .inl spared.stdout⟩
  · rw [ends] at failed ⊢
    cases mode : settings.usesManifest with
    | false =>
        obtain ⟨rfl, format, parsed, single⟩ := perform_direct mode made
        rw [single] at failed ⊢
        obtain ⟨sameTree, -, kept | ⟨empty, data, generated, cut⟩⟩ :=
          Job.run_eq_some (Prod.ext rfl failed)
        · exact ⟨sameTree, .inl kept⟩
        · exact ⟨sameTree, .inr ⟨empty, format, data, parsed, generated, cut⟩⟩
    | true =>
        rcases clean with call | unloaded | direct
        · rw [Plan.concernsCall_run failed] at call
          cases call
        · rw [Plan.make_manifest mode, unloaded] at made
          cases made
        · rw [mode] at direct
          cases direct

/-- What a run for given files leaves behind: their text, in the format asked for, at the end of
the standard output or in the one file that changed. -/
structure Leaves (settings : Settings) (files : List Bytes) (before after : World) (data : Bytes) :
    Prop where
  content : ∃ format text, Format.parse settings.format = .ok format ∧
    before.tree.collect settings.directory files = .ok text ∧
    format.render settings.package text = .ok data
  printed : settings.output = [] → after.tree = before.tree ∧ after.stdout = before.stdout ++ data
  written : settings.output ≠ [] → after.stdout = before.stdout ∧
    after.tree.read settings.output = .ok data ∧
    ∀ place, ¬ before.tree.EntryAt settings.output place →
      after.tree.lookup place = before.tree.lookup place

theorem perform_done (once : settings.watch = false) (direct : settings.usesManifest = false)
    (done : (perform interpreter settings files world).failure = none) :
    ∃ data, Leaves settings files world (perform interpreter settings files world).world data := by
  rcases perform_cases interpreter files world once with
    ⟨after, failure, ends, -⟩ | ⟨planned, plan, made, ends⟩
  · rw [ends] at done
    cases done
  · rw [ends] at done ⊢
    obtain ⟨rfl, format, parsed, single⟩ := perform_direct direct made
    rw [single] at done ⊢
    obtain ⟨data, generated, delivers⟩ := Job.run_eq_none (Prod.ext rfl done)
    obtain ⟨text, collected, rendered⟩ := Work.generate_files_eq_ok generated
    refine ⟨data, ⟨format, text, parsed, collected, rendered⟩, ?_, ?_⟩
    · intro empty
      cases delivers with
      | printing _ kept printed => exact ⟨kept, printed⟩
      | writing filled => exact absurd empty filled
    · intro filled
      have confined := delivers.confined
      cases delivers with
      | printing empty => exact absurd empty filled
      | writing _ written kept =>
          refine ⟨kept, FileTree.read_writeAtomically written, fun place spared => ?_⟩
          exact confined.others place (by simpa using spared)

end Perform

section Run

variable {interpreter : Interpreter} {version : Version} {environment : Environment}
  {arguments : List Bytes} {world : World}

def FailsWhole (world : World) : Prop :=
  ∀ fault, world.stdoutFault = some fault → fault.taken = 0

/-- A run without a watch that fails for how it was called, for its manifest, or for given files at
all, changes no file; it writes nothing either, but for what a failing write of the text itself has
taken. One that succeeds for given files leaves their text in the one place. -/
theorem run_allOrNothing
    (once : (run interpreter version environment arguments world).settings.watch = false) :
    let session := run interpreter version environment arguments world
    (∀ failure, session.failure = some failure →
      FailsClean interpreter session.settings world.tree failure →
      session.world.tree = world.tree ∧
        (session.world.stdout = world.stdout ∨
          ∃ files, ((command version).start arguments world).arguments = .ok files ∧
            CutsOffOutput session.settings files world failure session.world)) ∧
    (FailsWhole world → ∀ failure, session.failure = some failure →
      FailsClean interpreter session.settings world.tree failure → world.OnlyLogs session.world) ∧
    (session.failure = none → session.settings.usesManifest = false →
      ∃ files data, ((command version).start arguments world).arguments = .ok files ∧
        Leaves session.settings files world session.world data) := by
  unfold run at once ⊢
  dsimp only at once ⊢
  split
  · have spared := (command version).onlyLogs_start arguments world
    exact ⟨fun _ _ _ => ⟨spared.tree, .inl spared.stdout⟩, fun _ _ _ _ => spared,
      fun done => absurd done (by simp [ended])⟩
  · rename_i files parsed
    simp only [parsed, Command.start_world parsed, perform_settings] at once ⊢
    refine ⟨?_, ?_, fun done direct => ?_⟩
    · intro failure failed clean
      obtain ⟨sameTree, kept | cut⟩ := perform_failed once failed clean
      · exact ⟨sameTree, .inl kept⟩
      · exact ⟨sameTree, .inr ⟨files, rfl, cut⟩⟩
    · intro whole failure failed clean
      obtain ⟨sameTree, kept | ⟨-, _, data, -, -, fault, faulty, -, cut⟩⟩ :=
        perform_failed once failed clean
      · exact ⟨sameTree, kept⟩
      · refine ⟨sameTree, ?_⟩
        rw [cut, whole fault faulty, List.take_zero, List.append_nil]
    · obtain ⟨data, leaves⟩ := perform_done once direct done
      exact ⟨files, data, rfl, leaves⟩

end Run

end Session

namespace TwoOutputs

open Text (utf8)

def arguments : List Bytes := [utf8 "-o", failingName, missing]

def version : Version := .development [] [] []

def session : Session := .run Script.interpreter version [] arguments world

def settings : Settings := ⟨Path.current, failingName, [], [], [], false⟩

def failure : Failure := .unreadable missing ⟨.openFile, missing, .notFound⟩

theorem session_eq : session = .ended settings world (some failure) := by
  have parsed : ((command version).start arguments world).arguments = .ok [missing] := by
    decide +kernel
  have settled : (Settings.ofFlags ((command version).start arguments world).values).complete [] =
      settings := by decide +kernel
  have performed : Session.perform Script.interpreter settings [missing] world =
      .ended settings world (some failure) := by cbv
  simp only [session, Session.run, parsed, Command.start_world parsed, settled, performed]

theorem run_allOrNothing_missing :
    session.settings.watch = false ∧ session.settings.usesManifest = false ∧
      session.failure = some failure ∧ world.OnlyLogs session.world := by
  have once : session.settings.watch = false := by rw [session_eq]; rfl
  have direct : session.settings.usesManifest = false := by rw [session_eq]; rfl
  have failed : session.failure = some failure := by rw [session_eq]; rfl
  have whole : Session.FailsWhole world := by
    intro fault faulty
    cases faulty
  exact ⟨once, direct, failed,
    (Session.run_allOrNothing once).2.1 whole _ failed (.inr (.inr direct))⟩

end TwoOutputs

end Tool

end DocPrologue
