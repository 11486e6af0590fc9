import DocPrologue.Access
import DocPrologue.Path

/-!
File trees: directories, regular files and symbolic links, with a working directory against which
relative paths are taken. Paths are walked part by part as an operating system does: links are
followed, and each refusal has its cause.
-/

namespace DocPrologue

inductive Node where
  | directory
  | file (text : Bytes) (mode : Nat)
  | link (target : Bytes)

abbrev Location := List Bytes

structure FileTree where
  entries : List (Location × Node)
  here : Location

namespace FileTree

def lookup (tree : FileTree) (location : Location) : Option Node :=
  if location.isEmpty then some .directory else (tree.entries.find? (·.1 == location)).map (·.2)

def erase (tree : FileTree) (location : Location) : FileTree :=
  { tree with entries := tree.entries.filter (·.1 != location) }

def insert (tree : FileTree) (location : Location) (node : Node) : FileTree :=
  { tree with entries := (tree.erase location).entries ++ [(location, node)] }

def addDirectory (tree : FileTree) (location : Location) : FileTree :=
  if (tree.lookup location).isSome then tree else tree.insert location .directory

def addParents (tree : FileTree) (location : Location) : FileTree :=
  (List.range location.length).foldl
    (fun tree depth => tree.addDirectory (location.take depth)) tree

def empty (here : Location) : FileTree :=
  (addParents ⟨[], here⟩ here).addDirectory here

def locationOf (tree : FileTree) (path : Bytes) : Location :=
  Path.normalize true ((if Path.isAbsolute path then [] else tree.here) ++ Path.parts path)

/-- Where a path leads: to an entry, or to a name that is free in an existing directory. A free
name can be asked for as a directory, by a slash behind it. -/
inductive Spot where
  | taken (location : Location) (node : Node)
  | free (location : Location) (asDirectory : Bool)

def maxName : Nat := 255

def maxLinks : Nat := 40

def maxPath : Nat := 4096

def walk (tree : FileTree) (follow : Bool) (links : Nat) (location : Location) :
    List Bytes → Except SystemError Spot
  | [] => .ok (.taken location .directory)
  | part :: rest =>
    if part.isEmpty ∨ part = Path.current then walk tree follow links location rest
    else if part = Path.parent then walk tree follow links location.dropLast rest
    else if maxName < part.length then .error .nameTooLong
    else
      match tree.lookup (location ++ [part]) with
      | none =>
        if rest.all List.isEmpty then .ok (.free (location ++ [part]) (!rest.isEmpty))
        else .error .notFound
      | some .directory => walk tree follow links (location ++ [part]) rest
      | some (.file text mode) =>
        if rest.isEmpty then .ok (.taken (location ++ [part]) (.file text mode))
        else .error .notDirectory
      | some (.link target) =>
        if rest.isEmpty ∧ ¬ follow then .ok (.taken (location ++ [part]) (.link target))
        else
          match links with
          | 0 => .error .tooManyLinks
          | links + 1 =>
            walk tree follow links (if Path.isAbsolute target then [] else location)
              (Path.parts target ++ rest)
termination_by parts => (links, parts.length)

def locate (tree : FileTree) (follow : Bool) (path : Bytes) : Except SystemError Spot :=
  if (0 : UInt8) ∈ path then .error .invalidArgument
  else if path.isEmpty then .error .notFound
  else if maxPath ≤ path.length then .error .nameTooLong
  else
    tree.walk follow maxLinks (if Path.isAbsolute path then [] else tree.here) (Path.parts path)

def placeOf (tree : FileTree) (path : Bytes) : Location :=
  match tree.locate false path with
  | .ok (.taken location _) => location
  | .ok (.free location _) => location
  | .error _ => tree.locationOf path

def put (tree : FileTree) (path : Bytes) (node : Node) : FileTree :=
  (tree.addParents (tree.placeOf path)).insert (tree.placeOf path) node

def putDirectory (tree : FileTree) (path : Bytes) : FileTree :=
  (tree.addParents (tree.placeOf path)).addDirectory (tree.placeOf path)

def remove (tree : FileTree) (path : Bytes) : FileTree := tree.erase (tree.placeOf path)

def node? (tree : FileTree) (follow : Bool) (path : Bytes) : Except SystemError Node :=
  match tree.locate follow path with
  | .error cause => .error cause
  | .ok (.free _ _) => .error .notFound
  | .ok (.taken _ node) => .ok node

def isDirectory (tree : FileTree) (path : Bytes) : Bool :=
  match tree.node? true path with
  | .ok .directory => true
  | _ => false

def read (tree : FileTree) (path : Bytes) : Except AccessError Bytes :=
  match tree.node? true path with
  | .error cause => .error ⟨.openFile, path, cause⟩
  | .ok .directory => .error ⟨.readFile, path, .isDirectory⟩
  | .ok (.file text _) => .ok text
  | .ok (.link _) => .error ⟨.openFile, path, .tooManyLinks⟩

def newFileMode : Nat := 0o644

def write (tree : FileTree) (path text : Bytes) : Except AccessError FileTree :=
  match tree.locate true path with
  | .error cause => .error ⟨.openFile, path, cause⟩
  | .ok (.free location asDirectory) =>
    if asDirectory then .error ⟨.openFile, path, .isDirectory⟩
    else .ok (tree.insert location (.file text newFileMode))
  | .ok (.taken location (.file _ mode)) =>
    .ok (tree.insert location (.file text mode))
  | .ok (.taken _ .directory) => .error ⟨.openFile, path, .isDirectory⟩
  | .ok (.taken _ (.link _)) => .error ⟨.openFile, path, .tooManyLinks⟩

def makeDirectory (tree : FileTree) (path : Bytes) : Except AccessError FileTree :=
  match tree.locate false (Bytes.trimRight (· == Byte.slash) path) with
  | .error cause => .error ⟨.makeDirectory, path, cause⟩
  | .ok (.free location _) => .ok (tree.insert location .directory)
  | .ok (.taken _ _) =>
    match tree.node? false path with
    | .ok .directory => .ok tree
    | _ => .error ⟨.makeDirectory, path, .alreadyExists⟩

def parentPath (path : Bytes) : Bytes := Path.upToSlash (Bytes.trimRight (· == Byte.slash) path)

theorem parentPath_length_lt {path : Bytes} (nested : parentPath path ≠ []) :
    (parentPath path).length < path.length := by
  have bound := (List.dropWhile_suffix (p := (· == Byte.slash)) (l := path.reverse)).length_le
  have ending := List.head?_dropWhile_not (p := (· == Byte.slash)) (l := path.reverse)
  simp only [parentPath, Path.upToSlash, Bytes.trimRight, List.reverse_reverse, ne_eq,
    List.reverse_eq_nil_iff, List.length_reverse] at *
  cases name : path.reverse.dropWhile (· == Byte.slash) with
  | nil => simp [name] at nested
  | cons last before =>
    have shorter := (List.dropWhile_suffix (p := (· != Byte.slash)) (l := before)).length_le
    simp only [name, List.head?_cons, List.length_cons] at bound ending
    have isName : (last != Byte.slash) = true := by simpa [bne] using ending
    simp only [List.dropWhile_cons, isName, ↓reduceIte]
    omega

def makeDirectories (tree : FileTree) (path : Bytes) : Except AccessError FileTree :=
  match tree.node? true path with
  | .ok .directory => .ok tree
  | .ok _ => .error ⟨.makeDirectory, path, .notDirectory⟩
  | .error _ =>
    if _top : parentPath path = [] then tree.makeDirectory path
    else
      match tree.makeDirectories (parentPath path) with
      | .error error => .error error
      | .ok made => made.makeDirectory path
termination_by path.length
decreasing_by exact parentPath_length_lt _top

def names (tree : FileTree) (location : Location) : List Bytes :=
  tree.entries.filterMap fun entry =>
    if entry.1.dropLast = location then entry.1.getLast? else none

def files (tree : FileTree) : List (Bytes × Bytes × Nat) :=
  tree.entries.filterMap fun entry =>
    if tree.here.isPrefixOf entry.1 then
      match entry.2 with
      | .file text mode =>
        some (Bytes.join [Byte.slash] (entry.1.drop tree.here.length), text, mode)
      | _ => none
    else none

def textOf? (tree : FileTree) (name : Bytes) : Option Bytes :=
  (tree.files.find? (·.1 == name)).map (·.2.1)

def changes (before after : FileTree) : List (Bytes × Option Bytes) :=
  (after.files.filterMap fun file =>
    if before.textOf? file.1 = some file.2.1 then none else some (file.1, some file.2.1)) ++
  (before.files.filterMap fun file =>
    if (after.textOf? file.1).isSome then none else some (file.1, none))

end FileTree

end DocPrologue
