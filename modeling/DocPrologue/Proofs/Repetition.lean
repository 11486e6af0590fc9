import DocPrologue.Proofs.Inclusions
import DocPrologue.Proofs.Passes

/-!
Passes made a second time. Where no job writes what another one reads or writes, every output holds
after a pass what its job generates from the files as they are then. From there a pass finds nothing
to do.
-/

namespace DocPrologue.Tool

def Work.reads : Work → List Bytes
  | files directory paths _ _ => paths.map (Path.resolve directory)
  | target goal => goal.inputs.map (Path.resolve [])

theorem Work.generate_kept {work : Work} {before after : FileTree} {data : Bytes}
    (generated : work.generate before = .ok data)
    (kept : ∀ path ∈ work.reads, ∀ source, before.read path = .ok source →
      after.read path = .ok source) :
    work.generate after = .ok data := by
  rcases work with ⟨directory, paths, format, package⟩ | ⟨output, source, format, package⟩
  · rw [generate.eq_1] at generated ⊢
    cases collected : before.collect directory paths with
    | error error => simp [collected] at generated
    | ok text =>
        rw [collected] at generated
        rw [FileTree.collect, Inclusion.collect_kept collected kept]
        exact generated
  · cases source with
    | text content => exact generated
    | files paths =>
        rw [generate.eq_2, Target.generate, Target.text] at generated ⊢
        dsimp only at generated ⊢
        cases collected : Inclusion.collect before.read (paths.map (Path.resolve [])) with
        | error error => simp [collected] at generated
        | ok text =>
            rw [collected] at generated
            rw [Inclusion.collect_kept collected kept]
            exact generated

def Job.Settled (job : Job) (tree : FileTree) : Prop :=
  ∃ data, job.work.generate tree = .ok data ∧ tree.read job.output = .ok data

/-- No job writes a file that another one writes, or that some job reads. -/
structure Independent (tree : FileTree) (jobs : List Job) : Prop where
  outputs : (jobs.map Job.output).Pairwise fun first second => ¬ tree.SameFile first second
  inputs : ∀ job ∈ jobs, ∀ path ∈ job.work.reads, ∀ writer ∈ jobs,
    ¬ tree.SameFile path writer.output

section Passes

variable {verbose again : Bool} {job : Job} {jobs : List Job} {world between after : World}
  {data : Bytes}

theorem Job.Settled.run (settled : job.Settled world.tree) (filed : job.output ≠ []) :
    job.run again world = (world, none) := by
  obtain ⟨data, generated, held⟩ := settled
  have unwritten := FileTree.writeAtomically_of_read held world.fileFault outputMode
  rw [Job.run, generated]
  dsimp only
  rw [if_neg (by simpa using filed), unwritten]
  rfl

theorem runJobs_settled (settled : ∀ job ∈ jobs, job.Settled world.tree)
    (filed : ∀ job ∈ jobs, job.output ≠ []) : runJobs again jobs world = (world, none) := by
  induction jobs with
  | nil => rfl
  | cons job jobs ih =>
      have idle : job.run again world = (world, none) :=
        (settled job (by simp)).run (filed job (by simp))
      rw [runJobs_cons idle]
      exact ih (fun other member => settled other (by simp [member]))
        fun other member => filed other (by simp [member])

theorem Independent.tail (independent : Independent world.tree (job :: jobs))
    (ran : job.run verbose world = (between, none)) : Independent between.tree jobs := by
  obtain ⟨_, -, delivers⟩ := Job.run_eq_none ran
  have older := delivers.confined.sameFile
  have apart := independent.outputs
  rw [List.map_cons, List.pairwise_cons] at apart
  constructor
  · exact apart.2.imp fun different same => different (older _ _ same)
  · intro reader isReader path read writer isWriter same
    exact independent.inputs reader (by simp [isReader]) path read writer (by simp [isWriter])
      (older _ _ same)

theorem Independent.settled_head (independent : Independent world.tree (job :: jobs))
    (filed : job.output ≠ []) (ran : job.run verbose world = (between, none))
    (others : runJobs verbose jobs between = (after, none)) : job.Settled after.tree := by
  obtain ⟨data, generated, delivers⟩ := Job.run_eq_none ran
  have whole := (runJobs_confined (runJobs_cons_eq_none.mpr ⟨between, ran, others⟩)).1
  obtain ⟨rest, longer⟩ := runJobs_confined others
  refine ⟨data, Work.generate_kept generated ?_, ?_⟩
  -- No job of the whole pass has written what this one read.
  · intro path read source found
    refine (whole.reads path (fun output isOutput => ?_) source).mpr found
    obtain ⟨writer, isWriter, rfl⟩ := List.mem_map.mp isOutput
    exact independent.inputs job (by simp) path read writer isWriter
  -- The jobs behind it have not written its output.
  · have apart := independent.outputs
    rw [List.map_cons, List.pairwise_cons] at apart
    have kept : job.Keeps world after data :=
      delivers.keeps rest longer fun other member same =>
        apart.1 other.output (List.mem_map_of_mem member) (delivers.confined.sameFile _ _ same)
    rwa [Job.Keeps, if_neg filed] at kept

theorem settled_of_runJobs (independent : Independent world.tree jobs)
    (filed : ∀ job ∈ jobs, job.output ≠ []) (ran : runJobs verbose jobs world = (after, none)) :
    ∀ job ∈ jobs, job.Settled after.tree := by
  induction jobs generalizing world with
  | nil => simp
  | cons job jobs ih =>
      obtain ⟨between, first, others⟩ := runJobs_cons_eq_none.mp ran
      intro other member
      rcases List.mem_cons.mp member with rfl | later
      · exact independent.settled_head (filed other (by simp)) first others
      · exact ih (independent.tail first) (fun writer isWriter => filed writer (by simp [isWriter]))
          others other later

/-- A pass over the files that a pass has left changes no file and logs nothing. -/
theorem Plan.run_again {plan : Plan} (again : Bool) (filed : ∀ job ∈ plan.jobs, job.output ≠ [])
    (independent : Independent world.tree plan.jobs)
    (ran : plan.run verbose world = (after, none)) : plan.run again after = (after, none) :=
  runJobs_settled (settled_of_runJobs independent filed ran) filed

end Passes

namespace TwoPages

open Text (utf8)

def workplace : Location := [utf8 "d"]

def source : Bytes := utf8 "a.rs"

def joined : Bytes := utf8 "a.md"

def given : Bytes := utf8 "b.md"

def entry (name text : Bytes) : Location × Node :=
  (workplace ++ [name], .file text FileTree.newFileMode)

def world : World := .ofTree
  ⟨[(workplace, .directory), entry source (utf8 "//! Apples\n")], workplace⟩

def plan : Plan where
  jobs := [⟨joined, .files Path.current [source] .raw []⟩,
    ⟨given, .target ⟨given, .text (utf8 "Pears"), .raw, []⟩⟩]
  inputs := [source]

def written : World where
  tree := ⟨world.tree.entries ++ [entry joined (utf8 "Apples"), entry given (utf8 "Pears")],
    workplace⟩
  stdout := []
  stderr := utf8 "Wrote a.md.\nWrote b.md.\n"
  stdoutFault := none
  fileFault := none

theorem independent : Independent world.tree plan.jobs := by
  have read : world.tree.locate true source = .ok (.taken (workplace ++ [source])
      (.file (utf8 "//! Apples\n") FileTree.newFileMode)) := by cbv
  have first : world.tree.locate true joined = .ok (.free (workplace ++ [joined]) false) := by cbv
  have second : world.tree.locate true given = .ok (.free (workplace ++ [given]) false) := by cbv
  have apart := mt (FileTree.sameFile_iff first rfl second rfl).mp (by decide)
  have fromFirst := mt (FileTree.sameFile_iff read rfl first rfl).mp (by decide)
  have fromSecond := mt (FileTree.sameFile_iff read rfl second rfl).mp (by decide)
  have resolved : Path.resolve Path.current source = source := by decide
  constructor
  · simpa [plan] using apart
  · simp [plan, Work.reads, Target.inputs, resolved, fromFirst, fromSecond]

theorem generate_joined :
    (Work.files Path.current [source] .raw []).generate world.tree = .ok (utf8 "Apples") := by
  have resolved : Path.resolve Path.current source = source := by decide
  have read : world.tree.read source = .ok (utf8 "//! Apples\n") := by cbv
  have extracted : Block.extract source (utf8 "//! Apples\n") = .ok [utf8 "Apples"] := by
    decide +kernel
  have text : Inclusion.textOf world.tree.read source = .ok (utf8 "Apples") := by
    rw [Inclusion.textOf, read]
    dsimp only
    rw [extracted]
    rfl
  rw [Work.generate.eq_1, FileTree.collect, List.map_singleton, resolved, Inclusion.collect,
    Inclusion.textsOf, text]
  rfl

theorem run_plan : plan.run true world = (written, none) := by
  rw [Plan.run, plan, runJobs, Job.run, generate_joined]
  cbv

theorem run_again_written :
    (∀ job ∈ plan.jobs, job.output ≠ []) ∧ Independent world.tree plan.jobs ∧
      plan.run true world = (written, none) ∧ plan.run true written = (written, none) := by
  have filed : ∀ job ∈ plan.jobs, job.output ≠ [] := by decide
  exact ⟨filed, independent, run_plan, Plan.run_again true filed independent run_plan⟩

end TwoPages

end DocPrologue.Tool
