import DocPrologue.FileTree

/-!
The directories of files, in one canonical spelling each: links on the way are resolved where that
succeeds, and every directory is listed once, in byte order.
-/

namespace DocPrologue.FileTree

def maxResolvedLinks : Nat := 255

/-- Resolves the links among the parts of a path. `stack` holds the parts resolved so far,
innermost first; the result tells whether the resolved path is absolute and what its parts are. -/
def resolveParts (tree : FileTree) (links : Nat) (rooted : Bool) (stack : List Bytes) :
    List Bytes → Option (Bool × List Bytes)
  | [] => some (rooted, stack.reverse)
  | part :: rest =>
    if part.isEmpty ∨ part = Path.current ∨ part = Path.parent then
      resolveParts tree links rooted (Path.push rooted stack part) rest
    else
      match tree.node? false (Path.ofParts rooted (part :: stack).reverse) with
      | .error _ => none
      | .ok .directory => resolveParts tree links rooted (part :: stack) rest
      | .ok (.file _ _) =>
        if rest.isEmpty then resolveParts tree links rooted (part :: stack) rest else none
      | .ok (.link target) =>
        match links with
        | 0 => none
        | links + 1 =>
          if Path.isAbsolute target then
            resolveParts tree links true [] (Path.parts target ++ rest)
          else resolveParts tree links rooted stack (Path.parts target ++ rest)
termination_by parts => (links, parts.length)

def resolveLinks (tree : FileTree) (path : Bytes) : Option Bytes :=
  (tree.resolveParts maxResolvedLinks (Path.isAbsolute path) [] (Path.parts path)).map
    fun resolved => Path.ofParts resolved.1 resolved.2

def directoryOf (tree : FileTree) (path : Bytes) : Bytes :=
  (tree.resolveLinks (Path.directory path)).getD (Path.directory path)

def directories (tree : FileTree) (paths : List Bytes) : List Bytes :=
  Bytes.sortUnique (paths.map tree.directoryOf)

end DocPrologue.FileTree
