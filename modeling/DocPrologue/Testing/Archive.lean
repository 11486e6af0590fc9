import DocPrologue.Inclusion

/-!
Text archives: a comment and files after each other in one text. A file starts behind a marker line
that holds its name between double dashes.
-/

namespace DocPrologue.Testing

open Text (utf8)

structure Archive where
  comment : Bytes
  files : Bundle
deriving DecidableEq, Repr

namespace Archive

def markerStart : Bytes := utf8 "-- "

def markerEnd : Bytes := utf8 " --"

def markerName? (line : Bytes) : Option Bytes :=
  if Bytes.startsWith markerStart line && Bytes.endsWith markerEnd line &&
      markerStart.length + markerEnd.length ≤ line.length then
    let name := Text.trim ((line.drop markerStart.length).take
      (line.length - markerStart.length - markerEnd.length))
    if name.isEmpty then none else some name
  else none

def ended (text : Bytes) : Bytes :=
  if text.isEmpty ∨ text.getLast? = some Byte.lf then text else text ++ [Byte.lf]

def gather : List Bytes → Bytes × Bundle
  | [] => ([], [])
  | line :: rest =>
    let (text, files) := gather rest
    match markerName? line with
    | some name => ([], (name, text) :: files)
    | none => (line ++ (if rest.isEmpty then [] else [Byte.lf]) ++ text, files)

def endLast : Bundle → Bundle
  | [] => []
  | [last] => [(last.1, ended last.2)]
  | file :: files => file :: endLast files

def parse (text : Bytes) : Archive :=
  let (comment, files) := gather (Bytes.split Byte.lf text)
  if files.isEmpty then ⟨ended comment, []⟩ else ⟨comment, endLast files⟩

def read (tree : FileTree) (path : Bytes) : Except AccessError Archive :=
  match tree.read path with
  | .error error => .error error
  | .ok text => .ok (parse text)

def extractFiles (directory : Bytes) : Bundle → FileTree → FileTree × Option AccessError
  | [], tree => (tree, none)
  | file :: files, tree =>
    match tree.makeDirectories (Path.join directory (Path.directory file.1)) with
    | .error error => (tree, some error)
    | .ok made =>
      match made.write (Path.join directory file.1) file.2 with
      | .error error => (made, some error)
      | .ok written => extractFiles directory files written

def extract (archive : Archive) (directory : Bytes) (tree : FileTree) :
    FileTree × Option AccessError :=
  extractFiles directory archive.files tree

end Archive

end DocPrologue.Testing
