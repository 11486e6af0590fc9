import Mathlib.Data.List.Permutation
import DocPrologue.Tool.Plan
import DocPrologue.Proofs.AtomicWrites

/-!
Passes over several outputs. A pass ends at the first job that fails. What the jobs before it
generated stays, each from the files as the earlier ones left them; the output of that job and those
behind it are as before the pass, and so is every entry that is none of the finished outputs.
-/

namespace DocPrologue

namespace FileTree

/-- All differences between two trees lie at the entries of some outputs. Paths that denote other
files read as before, and paths that denoted different files still do. -/
structure Confined (outputs : List Bytes) (before after : FileTree) : Prop where
  others : ∀ place, (∀ output ∈ outputs, ¬ before.EntryAt output place) →
    after.lookup place = before.lookup place
  reads : ∀ path, (∀ output ∈ outputs, ¬ before.SameFile path output) → ∀ text,
    after.read path = .ok text ↔ before.read path = .ok text
  sameFile : ∀ first second, after.SameFile first second → before.SameFile first second
  entries : ∀ path place, after.EntryAt path place → before.EntryAt path place

theorem Confined.refl (outputs : List Bytes) (tree : FileTree) : Confined outputs tree tree :=
  ⟨fun _ _ => rfl, fun _ _ _ => Iff.rfl, fun _ _ same => same, fun _ _ entry => entry⟩

theorem Confined.trans {first second : List Bytes} {before between after : FileTree}
    (front : Confined first before between) (back : Confined second between after) :
    Confined (first ++ second) before after where
  others place spared := by
    rw [back.others place fun output member entry =>
      spared output (by simp [member]) (front.entries output place entry)]
    exact front.others place fun output member => spared output (by simp [member])
  reads path apart text := by
    rw [back.reads path fun output member same =>
      apart output (by simp [member]) (front.sameFile path output same)]
    exact front.reads path (fun output member => apart output (by simp [member])) text
  sameFile _ _ same := front.sameFile _ _ (back.sameFile _ _ same)
  entries _ _ entry := front.entries _ _ (back.entries _ _ entry)

theorem confined_writeAtomically {tree after : FileTree} {path data : Bytes} {mode : Nat}
    {changed : Bool} {fault : Option FillFault}
    (written : tree.writeAtomically fault path data mode = (.ok changed, after)) :
    Confined [path] tree after := by
  rcases writeAtomically_eq_ok written with ⟨-, -, rfl⟩ | ⟨-, place, entry, leaf, rfl⟩
  · exact .refl [path] after
  · have rewrites := leaf.rewrites data mode
    refine ⟨?_, ?_, fun _ _ => rewrites.sameFile, fun _ _ => rewrites.entryAt⟩
    · intro other spared
      apply rewrites.others
      rintro rfl
      exact spared path (List.mem_singleton_self path) entry
    · intro other apart text
      apply rewrites.read_iff
      intro met
      exact apart path (List.mem_singleton_self path) ⟨place, met, entry.denotes⟩

end FileTree

namespace Tool

inductive Job.Fails (job : Job) (world : World) : Failure → Prop
  | generation {error} : job.work.generate world.tree = .error error →
      Fails job world error.toFailure
  | printing {data failure} : job.work.generate world.tree = .ok data → job.output = [] →
      (world.print data).2 = some failure → Fails job world failure
  | writing {data failure} : job.work.generate world.tree = .ok data → job.output ≠ [] →
      (world.tree.writeAtomically world.fileFault job.output data outputMode).1 = .error failure →
      Fails job world failure

inductive Job.Delivers (job : Job) (world after : World) (data : Bytes) : Prop
  | printing : job.output = [] → after.tree = world.tree → after.stdout = world.stdout ++ data →
      Delivers job world after data
  | writing {changed} : job.output ≠ [] →
      world.tree.writeAtomically world.fileFault job.output data outputMode =
        (.ok changed, after.tree) →
      after.stdout = world.stdout → Delivers job world after data

def CutsOff (world : World) (data : Bytes) (failure : Failure) (after : World) : Prop :=
  ∃ fault, world.stdoutFault = some fault ∧ failure = .note fault.message ∧
    after.stdout = world.stdout ++ data.take fault.taken

section Jobs

variable {verbose : Bool} {job : Job} {jobs first second : List Job} {world between after : World}
  {data : Bytes} {failure : Failure}

theorem Job.run_eq_none (ran : job.run verbose world = (after, none)) :
    ∃ data, job.work.generate world.tree = .ok data ∧ job.Delivers world after data := by
  unfold run at ran
  split at ran
  · cases ran
  · rename_i data generated
    refine ⟨data, generated, ?_⟩
    split at ran
    · rename_i printed
      unfold World.print at ran
      split at ran
      · cases ran
      · cases ran
        exact .printing (List.isEmpty_iff.mp printed) rfl rfl
    · rename_i named
      have filled : job.output ≠ [] := by simpa using named
      split at ran
      · cases ran
      · rename_i changed tree written
        obtain ⟨rfl, -⟩ := Prod.mk.inj ran
        split
        · exact .writing filled written rfl
        · exact .writing filled written rfl

theorem Job.run_eq_some (ran : job.run verbose world = (after, some failure)) :
    after.tree = world.tree ∧ job.Fails world failure ∧
      (after.stdout = world.stdout ∨ job.output = [] ∧
        ∃ data, job.work.generate world.tree = .ok data ∧ CutsOff world data failure after) := by
  unfold run at ran
  split at ran
  · rename_i error failed
    cases ran
    exact ⟨rfl, .generation failed, .inl rfl⟩
  · rename_i data generated
    split at ran
    · rename_i printed
      have empty := List.isEmpty_iff.mp printed
      have refused : (world.print data).2 = some failure := by rw [ran]
      unfold World.print at ran
      split at ran
      · rename_i fault faulty
        cases ran
        exact ⟨rfl, .printing generated empty refused,
          .inr ⟨empty, data, generated, fault, faulty, rfl, rfl⟩⟩
      · cases ran
    · rename_i named
      have filled : job.output ≠ [] := by simpa using named
      split at ran
      · rename_i refusal tree refused
        cases ran
        exact ⟨FileTree.writeAtomically_eq_error refused,
          .writing generated filled (congrArg Prod.fst refused), .inl rfl⟩
      · cases ran

theorem Job.stdout_prefix_of_some (ran : job.run verbose world = (after, some failure)) :
    world.stdout <+: after.stdout := by
  obtain ⟨-, -, kept | ⟨-, data, -, fault, -, -, cut⟩⟩ := Job.run_eq_some ran
  · exact kept ▸ List.prefix_rfl
  · exact ⟨_, cut.symm⟩

theorem Job.Delivers.confined (delivers : job.Delivers world after data) :
    FileTree.Confined [job.output] world.tree after.tree := by
  cases delivers with
  | printing _ kept _ =>
      rw [kept]
      exact .refl [job.output] world.tree
  | writing _ written _ => exact FileTree.confined_writeAtomically written

theorem Job.Delivers.stdout_prefix (delivers : job.Delivers world after data) :
    world.stdout <+: after.stdout := by
  cases delivers with
  | printing _ _ printed => exact ⟨data, printed.symm⟩
  | writing _ _ kept => exact kept ▸ List.prefix_rfl

theorem runJobs_cons (ran : job.run verbose world = (between, none)) :
    runJobs verbose (job :: jobs) world = runJobs verbose jobs between := by
  rw [runJobs, ran]

theorem runJobs_cons_eq_none : runJobs verbose (job :: jobs) world = (after, none) ↔
    ∃ between, job.run verbose world = (between, none) ∧
      runJobs verbose jobs between = (after, none) := by
  rcases ran : job.run verbose world with ⟨between, _ | failure⟩
  · rw [runJobs_cons ran]
    simp
  · rw [runJobs, ran]
    simp

theorem runJobs_append_eq_none : runJobs verbose (first ++ second) world = (after, none) ↔
    ∃ between, runJobs verbose first world = (between, none) ∧
      runJobs verbose second between = (after, none) := by
  induction first generalizing world with
  | nil => simp [runJobs]
  | cons job jobs ih =>
      simp only [List.cons_append, runJobs_cons_eq_none, ih]
      grind

theorem runJobs_confined (ran : runJobs verbose jobs world = (after, none)) :
    FileTree.Confined (jobs.map Job.output) world.tree after.tree ∧
      world.stdout <+: after.stdout := by
  induction jobs generalizing world with
  | nil =>
      cases ran
      exact ⟨.refl [] _, List.prefix_rfl⟩
  | cons job jobs ih =>
      obtain ⟨between, first, rest⟩ := runJobs_cons_eq_none.mp ran
      obtain ⟨data, -, delivers⟩ := Job.run_eq_none first
      obtain ⟨confined, longer⟩ := ih rest
      exact ⟨delivers.confined.trans confined, delivers.stdout_prefix.trans longer⟩

/-- A pass is a run of jobs that finish, and perhaps one that fails behind them. -/
theorem runJobs_split (verbose : Bool) (jobs : List Job) (world : World) :
    ∃ finished stopped between, jobs = finished ++ stopped ∧
      runJobs verbose finished world = (between, none) ∧
      ((stopped = [] ∧ runJobs verbose jobs world = (between, none)) ∨
        ∃ job later after failure, stopped = job :: later ∧
          job.run verbose between = (after, some failure) ∧
          runJobs verbose jobs world = (after, some failure)) := by
  induction jobs generalizing world with
  | nil => exact ⟨[], [], world, rfl, rfl, .inl ⟨rfl, rfl⟩⟩
  | cons job jobs ih =>
      rcases ran : job.run verbose world with ⟨next, _ | failure⟩
      · obtain ⟨finished, stopped, between, split, done, ended⟩ := ih next
        refine ⟨job :: finished, stopped, between, by rw [split, List.cons_append], ?_, ?_⟩
        · rwa [runJobs_cons ran]
        · rwa [runJobs_cons ran]
      · refine ⟨[], job :: jobs, world, rfl, rfl, .inr ⟨job, jobs, next, failure, rfl, ran, ?_⟩⟩
        rw [runJobs, ran]

def Job.Keeps (job : Job) (start after : World) (data : Bytes) : Prop :=
  if job.output = [] then start.stdout ++ data <+: after.stdout
  else after.tree.read job.output = .ok data

theorem Job.Delivers.keeps (delivers : job.Delivers world between data)
    (confined : FileTree.Confined (jobs.map Job.output) between.tree after.tree)
    (longer : between.stdout <+: after.stdout)
    (apart : ∀ other ∈ jobs, ¬ between.tree.SameFile job.output other.output) :
    job.Keeps world after data := by
  unfold Keeps
  cases delivers with
  | printing empty _ printed =>
      rw [if_pos empty, ← printed]
      exact longer
  | writing filled written _ =>
      rw [if_neg filled]
      exact (confined.reads _ (by simpa using apart) _).mpr (FileTree.read_writeAtomically written)

end Jobs

section Run

variable {verbose : Bool} {plan : Plan} {world : World}

def Plan.OutputsApart (plan : Plan) (tree : FileTree) : Prop :=
  (plan.jobs.map Job.output).Pairwise fun first second => ¬ tree.SameFile first second

/-- A clean end of a pass. Each finished job has its content in place, generated from the files as
the earlier jobs left them; the outputs of the others stand and read as before, no other entry
differs, and a failure is that of the first job that is not finished. -/
structure Plan.EndsCleanly (plan : Plan) (verbose : Bool) (world : World)
    (finished stopped : List Job) : Prop where
  split : plan.jobs = finished ++ stopped
  delivered : ∀ earlier job later, finished = earlier ++ job :: later →
    ∃ data, job.work.generate (runJobs verbose earlier world).1.tree = .ok data ∧
      job.Keeps (runJobs verbose earlier world).1 (plan.run verbose world).1 data
  unwritten : ∀ job ∈ stopped,
    (∀ place, world.tree.EntryAt job.output place →
      (plan.run verbose world).1.tree.lookup place = world.tree.lookup place) ∧
    ∀ text, (plan.run verbose world).1.tree.read job.output = .ok text ↔
      world.tree.read job.output = .ok text
  others : ∀ place, (∀ job ∈ finished, ¬ world.tree.EntryAt job.output place) →
    (plan.run verbose world).1.tree.lookup place = world.tree.lookup place
  failure : match (plan.run verbose world).2 with
    | none => stopped = []
    | some failure => ∃ job later, stopped = job :: later ∧
        job.Fails (runJobs verbose finished world).1 failure

/-- A pass ends cleanly, whether it fails or not, if its outputs are different files. -/
theorem Plan.run_endsCleanly (verbose : Bool) (apart : plan.OutputsApart world.tree) :
    ∃ finished stopped, plan.EndsCleanly verbose world finished stopped := by
  obtain ⟨finished, stopped, between, split, done, ended⟩ :=
    runJobs_split verbose plan.jobs world
  obtain ⟨confined, -⟩ := runJobs_confined done
  have left : (plan.run verbose world).1.tree = between.tree ∧
      between.stdout <+: (plan.run verbose world).1.stdout := by
    rw [Plan.run]
    rcases ended with ⟨-, whole⟩ | ⟨job, later, _, failure, -, failed, whole⟩
    · rw [whole]
      exact ⟨rfl, List.prefix_rfl⟩
    · rw [whole]
      exact ⟨(Job.run_eq_some failed).1, Job.stdout_prefix_of_some failed⟩
  unfold OutputsApart at apart
  rw [split, List.map_append, List.pairwise_append] at apart
  obtain ⟨among, -, across⟩ := apart
  refine ⟨finished, stopped, split, ?_, ?_, ?_, ?_⟩
  · rintro earlier job later rfl
    obtain ⟨start, before, rest⟩ := runJobs_append_eq_none.mp done
    obtain ⟨next, ran, behind⟩ := runJobs_cons_eq_none.mp rest
    obtain ⟨data, generated, delivers⟩ := Job.run_eq_none ran
    obtain ⟨later, longer⟩ := runJobs_confined behind
    rw [before]
    refine ⟨data, generated, ?_⟩
    refine delivers.keeps (left.1 ▸ later) (longer.trans left.2) fun other member same => ?_
    have earliest := (runJobs_confined before).1.sameFile _ _ (delivers.confined.sameFile _ _ same)
    rw [List.map_append, List.map_cons, List.pairwise_append, List.pairwise_cons] at among
    exact among.2.1.1 other.output (List.mem_map_of_mem member) earliest
  · intro job member
    have spared : ∀ output ∈ finished.map Job.output, ¬ world.tree.SameFile job.output output :=
      fun output isOutput same =>
        across output isOutput job.output (List.mem_map_of_mem member) same.symm
    rw [left.1]
    refine ⟨fun place entry => ?_, confined.reads _ spared⟩
    refine confined.others place fun output isOutput met => ?_
    exact spared output isOutput ⟨place, entry.denotes, met.denotes⟩
  · intro place spared
    rw [left.1]
    exact confined.others place (by simpa using spared)
  · rcases ended with ⟨empty, whole⟩ | ⟨job, later, _, failure, rest, failed, whole⟩
    · rw [Plan.run, whole]
      exact empty
    · rw [Plan.run, whole, done]
      exact ⟨job, later, rest, (Job.run_eq_some failed).2.1⟩

end Run

namespace TwoOutputs

open Text (utf8)

def pageName : Bytes := utf8 "page.md"

def failingName : Bytes := utf8 "new.md"

def missing : Bytes := utf8 "new.rs"

def directory : Location := [utf8 "d"]

def world : World := .ofTree ⟨[(directory, .directory)], directory⟩

def plan : Plan where
  jobs := [⟨pageName, .target ⟨pageName, .text (utf8 "Page"), .raw, []⟩⟩,
    ⟨failingName, .files Path.current [missing] .raw []⟩]
  inputs := [missing]

theorem outputsApart : plan.OutputsApart world.tree := by
  have page : world.tree.locate true pageName = .ok (.free (directory ++ [pageName]) false) := by
    cbv
  have failing : world.tree.locate true failingName =
      .ok (.free (directory ++ [failingName]) false) := by cbv
  have apart := mt (FileTree.sameFile_iff page rfl failing rfl).mp (by decide)
  simpa [Plan.OutputsApart, plan] using apart

theorem run_endsCleanly_plan :
    plan.OutputsApart world.tree ∧
      (plan.run false world).2 = some (.unreadable missing ⟨.openFile, missing, .notFound⟩) ∧
      ∃ finished stopped, plan.EndsCleanly false world finished stopped :=
  ⟨outputsApart, by cbv, Plan.run_endsCleanly false outputsApart⟩

end TwoOutputs

end Tool

end DocPrologue
