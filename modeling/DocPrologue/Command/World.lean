import DocPrologue.AtomicWrite
import DocPrologue.Log

/-! What a command acts on: the files and its two output streams. -/

namespace DocPrologue

structure StreamFault where
  message : Bytes
  taken : Nat
deriving DecidableEq, Repr

structure World where
  tree : FileTree
  stdout : Bytes
  stderr : Bytes
  stdoutFault : Option StreamFault
  fileFault : Option FileTree.FillFault

namespace World

def ofTree (tree : FileTree) : World := ⟨tree, [], [], none, none⟩

def report (world : World) (text : Bytes) : World := { world with stderr := world.stderr ++ text }

def log (world : World) (message : Bytes) : World := world.report (Log.line message)

def logAll (world : World) (messages : List Bytes) : World := messages.foldl log world

def print (world : World) (data : Bytes) : World × Option Failure :=
  match world.stdoutFault with
  | some fault =>
    ({ world with stdout := world.stdout ++ data.take fault.taken }, some (.note fault.message))
  | none => ({ world with stdout := world.stdout ++ data }, none)

end World

end DocPrologue
