import DocPrologue.Failure
import DocPrologue.Text.Decimal

/-!
Atomic writes. The data goes to a temporary file beside the target, which then takes the target's
place in one step; a failure leaves no temporary file behind. A file that already holds the data is
not touched.
-/

namespace DocPrologue.FileTree

open Text (utf8 decimal)

def tempStem (name : Bytes) : Bytes := Byte.dot :: Path.base name ++ utf8 ".tmp"

/-- A name for temporary files. The number takes the place of the last asterisk of the stem; a stem
without one is followed by it. -/
def tempName (stem number : Bytes) : Bytes :=
  if Byte.star ∈ stem then
    (stem.reverse.dropWhile (· != Byte.star)).reverse.dropLast ++ number ++
      (stem.reverse.takeWhile (· != Byte.star)).reverse
  else stem ++ number

def childPath (directory name : Bytes) : Bytes :=
  if directory.getLast? = some Byte.slash then directory ++ name
  else directory ++ Byte.slash :: name

def firstTempNumber : Nat := 1000000000

def tempAttempts : Nat := 10000

def tempMode : Nat := 0o600

structure TempFile where
  path : Bytes
  location : Location
  tree : FileTree

def createTemp (tree : FileTree) (directory stem : Bytes) :
    (attempts number : Nat) → Except AccessError TempFile
  | 0, _ =>
    .error ⟨.createTemp, childPath directory (tempName stem [Byte.star]), .present⟩
  | attempts + 1, number =>
    let path := childPath directory (tempName stem (decimal number))
    match tree.locate false path with
    | .error cause => .error ⟨.openFile, path, cause⟩
    | .ok (.taken _ _) => createTemp tree directory stem attempts (number + 1)
    | .ok (.free location _) =>
      .ok ⟨path, location, tree.insert location (.file [] tempMode)⟩

def moveFile (tree : FileTree) (source : Location) (node : Node) (path : Bytes) :
    Except SystemError FileTree :=
  match tree.locate false path with
  | .error cause => .error cause
  | .ok (.taken _ .directory) => .error .alreadyExists
  | .ok (.taken location _) => .ok ((tree.erase source).insert location node)
  | .ok (.free location asDirectory) =>
    if asDirectory then .error .notDirectory else .ok ((tree.erase source).insert location node)

inductive FillStep where
  | write
  | setMode
  | close
deriving DecidableEq, Repr

def FillStep.action : FillStep → Action
  | write => .writeFile
  | setMode => .changeMode
  | close => .closeFile

structure FillFault where
  step : FillStep
  cause : SystemError
deriving DecidableEq, Repr

/-- Replaces a file by a new one that was filled elsewhere. Whatever part of a temporary file was
filled, it is removed if the file cannot be finished or moved. -/
def replaceFile (tree : FileTree) (fault : Option FillFault) (path data : Bytes) (mode : Nat) :
    Except Failure Bool × FileTree :=
  match tree.createTemp (Path.directory path) (tempStem path) tempAttempts firstTempNumber with
  | .error error => (.error (.access error), tree)
  | .ok temp =>
    match fault with
    | some fault =>
      (.error (.access ⟨fault.step.action, temp.path, fault.cause⟩), temp.tree.erase temp.location)
    | none =>
      let node := Node.file data mode
      match (temp.tree.insert temp.location node).moveFile temp.location node path with
      | .error cause => (.error (.moving temp.path path cause), temp.tree.erase temp.location)
      | .ok moved => (.ok true, moved)

def writeAtomically (tree : FileTree) (fault : Option FillFault) (path data : Bytes) (mode : Nat) :
    Except Failure Bool × FileTree :=
  match tree.read path with
  | .ok old => if old = data then (.ok false, tree) else tree.replaceFile fault path data mode
  | .error error =>
    if error.cause.isMissing then tree.replaceFile fault path data mode
    else (.error (.access error), tree)

end DocPrologue.FileTree
