import DocPrologue.Testing.Archive
import DocPrologue.Testing.Assertion
import DocPrologue.Testing.Pattern
import DocPrologue.Testing.Report

/-!
Golden tests. Every archive that matches a pattern is a case: the prologues of the files that its
comment names are joined, and the result is compared with the golden file beside the archive, or
becomes it.
-/

namespace DocPrologue.Testing.Golden

open Text (utf8 quote)

def result (archive : Archive) : Bytes :=
  (match archive.files.collect (Text.words archive.comment) with
    | .ok text => text
    | .error error => utf8 "error: " ++ error.message) ++ [Byte.lf]

def path (archivePath : Bytes) : Bytes := Path.withoutExtension archivePath ++ utf8 ".golden"

def caseName (archivePath : Bytes) : Bytes :=
  let name := Path.base archivePath
  name.take (name.length - (Path.extension archivePath).length)

def cannot (action goldenPath : Bytes) (error : AccessError) : Bytes :=
  utf8 "unable to " ++ action ++ utf8 " golden file " ++ quote goldenPath ++ utf8 ": " ++
    error.message

def check (update : Bool) (archivePath : Bytes) (tree : FileTree) : FileTree × Messages :=
  match Archive.read tree archivePath with
  | .error error => (tree, [error.message])
  | .ok archive =>
    let golden := path archivePath
    if update then
      match tree.write golden (result archive) with
      | .error error => (tree, [cannot (utf8 "write") golden error])
      | .ok written => (written, [])
    else
      match tree.read golden with
      | .error error => (tree, [cannot (utf8 "read") golden error])
      | .ok want => (tree, checkEqual (result archive) want)

def run (pattern : Bytes) (update : Bool) (tree : FileTree) : FileTree × Report :=
  match glob tree pattern with
  | none =>
    (tree, .ofMessages
      [utf8 "filepath.Glob(" ++ quote pattern ++ utf8 "): syntax error in pattern"])
  | some [] => (tree, .ofMessages [utf8 "no files match " ++ quote pattern])
  | some paths =>
    let (tree, results) := runCases caseName (fun _ => check update) [] paths tree
    (tree, .ofCases results)

end DocPrologue.Testing.Golden
