import DocPrologue.Block
import DocPrologue.FileTree

/-!
Inclusion: the prologues of several files, joined in the order given with one blank line between
those that have any text. The first file that cannot be read or understood ends it.
-/

namespace DocPrologue

open Text (utf8)

inductive InclusionError where
  | noFiles
  | unreadable (path : Bytes) (cause : AccessError)
  | malformed (error : Malformed)
deriving DecidableEq, Repr

namespace InclusionError

def message : InclusionError → Bytes
  | noFiles => utf8 "includedocs: at least one file is required"
  | unreadable path cause => utf8 "includedocs: reading " ++ path ++ utf8 ": " ++ cause.message
  | malformed error => error.message

end InclusionError

namespace Inclusion

abbrev Reader := Bytes → Except AccessError Bytes

def joinTexts (texts : List Bytes) : Bytes :=
  Bytes.join [Byte.lf, Byte.lf] (texts.filter fun text => !text.isEmpty)

def textOf (read : Reader) (path : Bytes) : Except InclusionError Bytes :=
  match read path with
  | .error cause => .error (.unreadable path cause)
  | .ok source =>
    match Block.extract path source with
    | .error error => .error (.malformed error)
    | .ok block => .ok block.text

def textsOf (read : Reader) : List Bytes → Except InclusionError (List Bytes)
  | [] => .ok []
  | path :: paths =>
    match textOf read path with
    | .error error => .error error
    | .ok text =>
      match textsOf read paths with
      | .error error => .error error
      | .ok texts => .ok (text :: texts)

def collect (read : Reader) (paths : List Bytes) : Except InclusionError Bytes :=
  if paths.isEmpty then .error .noFiles
  else
    match textsOf read paths with
    | .error error => .error error
    | .ok texts => .ok (joinTexts texts)

end Inclusion

def FileTree.collect (tree : FileTree) (directory : Bytes) (paths : List Bytes) :
    Except InclusionError Bytes :=
  Inclusion.collect tree.read (paths.map (Path.resolve directory))

abbrev Bundle := List (Bytes × Bytes)

namespace Bundle

def isValidPath (path : Bytes) : Bool :=
  Text.isValidUtf8 path &&
    (path == Path.current ||
      (Path.parts path).all fun part =>
        !part.isEmpty && part != Path.current && part != Path.parent)

def hasDirectory (bundle : Bundle) (path : Bytes) : Bool :=
  path == Path.current || bundle.any fun file => Bytes.startsWith (path ++ [Byte.slash]) file.1

def read (bundle : Bundle) (path : Bytes) : Except AccessError Bytes :=
  if isValidPath path then
    match bundle.reverse.find? (·.1 == path) with
    | some file => .ok file.2
    | none =>
      if bundle.hasDirectory path then .error ⟨.readFile, path, .invalidArgument⟩
      else .error ⟨.openFile, path, .absent⟩
  else .error ⟨.openFile, path, .absent⟩

def collect (bundle : Bundle) (paths : List Bytes) : Except InclusionError Bytes :=
  Inclusion.collect bundle.read (paths.map Path.clean)

end Bundle

end DocPrologue
