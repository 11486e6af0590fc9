import DocPrologue.Tool.Plan
import DocPrologue.Text.Decimal

/-!
Watching: after a first pass the tool waits for changes of its inputs and regenerates when they have
settled. Failures of a pass are logged and do not end the watch. The inputs are those of the last
plan that could be made.
-/

namespace DocPrologue.Tool

open Text (utf8 decimal)

inductive Edit where
  | write (path text : Bytes)
  | remove (path : Bytes)

namespace Edit

def path : Edit → Bytes
  | write path _ => path
  | remove path => path

def apply (tree : FileTree) (edit : Edit) : FileTree :=
  match tree.node? false edit.path with
  | .ok .directory => tree
  | _ =>
    match edit with
    | write path text => tree.put path (.file text FileTree.newFileMode)
    | remove path => tree.remove path

end Edit

structure Watch where
  settings : Settings
  files : List Bytes
  watched : List Bytes
  /-- The directories whose changes are seen. None is ever given up. -/
  directories : List Bytes
  world : World

structure Registration where
  watched : List Bytes
  directories : List Bytes
  refusal : Option SystemError

def addNew (paths : List Bytes) (path : Bytes) : List Bytes :=
  if paths.contains path then paths else paths ++ [path]

/-- Registers inputs in order. An input whose directory cannot be watched is still registered, and
those behind it are not. -/
def register (tree : FileTree) (watched directories : List Bytes) : List Bytes → Registration
  | [] => ⟨watched, directories, none⟩
  | input :: inputs =>
    let path := Path.clean input
    match tree.node? true (Path.directory path) with
    | .error cause => ⟨addNew watched path, directories, some cause⟩
    | .ok _ =>
      register tree (addNew watched path) (addNew directories (Path.directory path)) inputs

def logFailure (world : World) : Option Failure → World
  | none => world
  | some failure => world.log failure.message

namespace Watch

def start (settings : Settings) (files : List Bytes) (plan : Plan) (world : World) :
    World × Except Failure Watch :=
  let (world, failure) := plan.run true world
  let world := logFailure world failure
  match register world.tree [] [] plan.inputs with
  | ⟨_, _, some cause⟩ => (world, .error (.system cause))
  | ⟨watched, directories, none⟩ =>
    let world := world.log (utf8 "Watching " ++ decimal watched.length ++ utf8 " files.")
    (world, .ok ⟨settings, files, watched, directories, world⟩)

def regenerate (interpreter : Interpreter) (watch : Watch) : Watch :=
  match Plan.make interpreter watch.settings watch.files watch.world with
  | (world, .error failure) => { watch with world := world.log failure.message }
  | (world, .ok plan) =>
    let (world, failure) := plan.run true world
    let world := logFailure world failure
    match register world.tree [] watch.directories plan.inputs with
    | ⟨watched, directories, none⟩ =>
      { watch with watched := watched, directories := directories, world := world }
    | ⟨watched, directories, some cause⟩ =>
      { watch with
        watched := watched, directories := directories,
        world := world.log (utf8 "Watch error: " ++ cause.message) }

def follows (watch : Watch) (path : Bytes) : Bool :=
  watch.watched.contains (Path.clean path) &&
    watch.directories.contains (Path.directory (Path.clean path))

def edited (watch : Watch) (burst : List Edit) : Watch :=
  { watch with world := { watch.world with tree := burst.foldl Edit.apply watch.world.tree } }

def notices (watch : Watch) (burst : List Edit) : Bool :=
  burst.any fun edit => watch.follows edit.path

/-- What a burst of edits leads to, which are so close that the tool waits for their end: one pass
if any of them counts. -/
def step (interpreter : Interpreter) (watch : Watch) (burst : List Edit) : Watch :=
  if watch.notices burst then (watch.edited burst).regenerate interpreter else watch.edited burst

end Watch

end DocPrologue.Tool
