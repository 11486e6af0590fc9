import DocPrologue.Tool.Settings

/-!
Plans: the jobs of one pass and the files that they depend on. A pass runs the jobs in order and
ends at the first that fails; what was written before stays.
-/

namespace DocPrologue.Tool

open Text (utf8)

inductive Work where
  | files (directory : Bytes) (paths : List Bytes) (format : Format) (package : Bytes)
  | target (target : Target)
deriving DecidableEq, Repr

structure Job where
  output : Bytes
  work : Work
deriving DecidableEq, Repr

structure Plan where
  jobs : List Job
  inputs : List Bytes
deriving DecidableEq, Repr

def Work.generate (tree : FileTree) : Work → Except GenerationError Bytes
  | files directory paths format package =>
    match tree.collect directory paths with
    | .error error => .error (.inclusion error)
    | .ok text =>
      match format.render package text with
      | .error error => .error (.rendering error)
      | .ok data => .ok data
  | target goal => goal.generate tree.read

def outputMode : Nat := 0o644

def Job.run (verbose : Bool) (job : Job) (world : World) : World × Option Failure :=
  match job.work.generate world.tree with
  | .error error => (world, some error.toFailure)
  | .ok data =>
    if job.output.isEmpty then world.print data
    else
      match world.tree.writeAtomically world.fileFault job.output data outputMode with
      | (.error failure, tree) => ({ world with tree := tree }, some failure)
      | (.ok changed, tree) =>
        let written := { world with tree := tree }
        (if changed && verbose then written.log (utf8 "Wrote " ++ job.output ++ utf8 ".")
          else written,
          none)

def runJobs (verbose : Bool) : List Job → World → World × Option Failure
  | [], world => (world, none)
  | job :: jobs, world =>
    match job.run verbose world with
    | (world, some failure) => (world, some failure)
    | (world, none) => runJobs verbose jobs world

namespace Plan

def run (verbose : Bool) (plan : Plan) (world : World) : World × Option Failure :=
  runJobs verbose plan.jobs world

def ofFiles (settings : Settings) (files : List Bytes) : Except Failure Plan :=
  match Format.parse settings.format with
  | .error error => .error (.ofRender error)
  | .ok format =>
    .ok ⟨[⟨settings.output, .files settings.directory files format settings.package⟩],
      files.map (Path.resolve settings.directory)⟩

def ofManifest (manifest : Manifest) : Plan :=
  ⟨manifest.targets.map fun target => ⟨target.output, .target target⟩, manifest.inputs⟩

def make (interpreter : Interpreter) (settings : Settings) (files : List Bytes) (world : World) :
    World × Except Failure Plan :=
  if settings.usesManifest then
    match Manifest.load interpreter world.tree.read
        (Path.resolve settings.directory settings.manifest) with
    | (.error failure, printed) => (world.logAll printed, .error failure)
    | (.ok manifest, printed) => (world.logAll printed, .ok (ofManifest manifest))
  else (world, ofFiles settings files)

end Plan

end DocPrologue.Tool
