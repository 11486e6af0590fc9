import DocPrologue.Script.Interpreter
import DocPrologue.Tool.Session

/-!
The command line. Files are brought from the disk into a tree as the run asks for them; the run
itself is pure, and what it changed in the tree is then written back.
-/

namespace DocPrologue.CommandLine

open Text (utf8)

def version : Version := .development (utf8 "lean4") (utf8 "posix") (utf8 "any")

def variableNames : List String :=
  ["GOFILE", "GOPACKAGE", "INCLUDEDOCS_DIR", "INCLUDEDOCS_OUTPUT", "INCLUDEDOCS_FORMAT",
    "INCLUDEDOCS_PACKAGE", "INCLUDEDOCS_MANIFEST"]

def readEnvironment : IO Tool.Environment :=
  variableNames.filterMapM fun name => do
    return (← IO.getEnv name).map fun value => (utf8 name, utf8 value)

def diskPath? (path : Bytes) : Option String := String.fromUTF8? ⟨path.toArray⟩

def fetchEntry (tree : FileTree) (location : Location) : IO FileTree := do
  let some name := diskPath? (Path.ofParts true location) | return tree
  let path := (← IO.currentDir) / name
  if ← path.isDir then return tree.insert location .directory
  if ← path.pathExists then
    let data ← IO.FS.readBinFile path
    return tree.insert location (.file data.toList FileTree.newFileMode)
  return tree.erase location

def fetch (tree : FileTree) (path : Bytes) : IO FileTree :=
  let location := tree.locationOf path
  (List.range location.length).foldlM
    (fun tree depth => fetchEntry tree (location.take (depth + 1))) tree

def demands (settings : Tool.Settings) (files : List Bytes) (tree : FileTree) : List Bytes :=
  let manifest :=
    if settings.usesManifest then [Path.resolve settings.directory settings.manifest] else []
  manifest ++
    match (Tool.Plan.make Script.interpreter settings files (.ofTree tree)).2 with
    | .ok plan => plan.inputs ++ plan.jobs.map Tool.Job.output
    | .error failure => failure.causes.filterMap fun cause =>
        match cause with
        | .unreadable path _ => some path
        | _ => none

partial def fetchAll (settings : Tool.Settings) (files : List Bytes) (tree : FileTree)
    (fetched : List Bytes) : IO (FileTree × List Bytes) := do
  let missing := (demands settings files tree).filter fun path =>
    !path.isEmpty && !fetched.contains path
  if missing.isEmpty then return (tree, fetched)
  fetchAll settings files (← missing.foldlM fetch tree) (fetched ++ missing)

def store (path text : Bytes) : IO Unit := do
  let temporary := FileTree.childPath (Path.directory path) (FileTree.tempStem path)
  match diskPath? path, diskPath? temporary with
  | some target, some source =>
    IO.FS.writeBinFile source ⟨text.toArray⟩
    IO.FS.rename source target
  | _, _ => throw (.userError "file name is not valid UTF-8")

def storeChanges (before after : FileTree) (paths : List Bytes) : IO Unit :=
  paths.forM fun path =>
    match before.read path, after.read path with
    | .ok old, .ok new => if old = new then pure () else store path new
    | .error _, .ok new => store path new
    | _, .error _ => pure ()

def writeStream (stream : IO.FS.Stream) (text : Bytes) : IO Unit := do
  stream.write ⟨text.toArray⟩
  stream.flush

def showOutput (before after : World) : IO Unit := do
  writeStream (← IO.getStdout) (after.stdout.drop before.stdout.length)
  writeStream (← IO.getStderr) (after.stderr.drop before.stderr.length)

def editOf? (watch : Tool.Watch) (path : Bytes) : IO (Option Tool.Edit) := do
  match watch.world.tree.read path, (← fetch watch.world.tree path).read path with
  | .ok old, .ok text => return if old = text then none else some (.write path text)
  | .ok _, .error _ => return some (.remove path)
  | .error _, .ok text => return some (.write path text)
  | .error _, .error _ => return none

def interval : UInt32 := 200

partial def follow (watch : Tool.Watch) : IO Unit := do
  IO.sleep interval
  let burst ← watch.watched.filterMapM (editOf? watch)
  let changed := watch.edited burst
  let (tree, paths) ← fetchAll changed.settings changed.files changed.world.tree []
  let fetched := { watch with world := { watch.world with tree := tree } }
  let next := fetched.step Script.interpreter burst
  storeChanges tree next.world.tree paths
  showOutput watch.world next.world
  follow next

def run (arguments : List Bytes) : IO UInt32 := do
  let environment ← readEnvironment
  let here := Path.normalize true (Path.parts (utf8 (← IO.currentDir).toString))
  let start := (Tool.command version).start arguments (.ofTree (.empty here))
  let settings := (Tool.Settings.ofFlags start.values).complete environment
  let files := match start.arguments with
    | .ok files => files
    | .error _ => []
  let (tree, paths) ← fetchAll settings files (.empty here) []
  let world := World.ofTree tree
  let session := Tool.Session.run Script.interpreter version environment arguments world
  let final := Command.showFailure session.world session.failure
  storeChanges tree final.tree paths
  showOutput world final
  match session.watch with
  | some watch => follow watch
  | none => pure ()
  return (Command.exitCode session.failure).toUInt32

end DocPrologue.CommandLine

def main (arguments : List String) : IO UInt32 :=
  DocPrologue.CommandLine.run (arguments.map DocPrologue.Text.utf8)
