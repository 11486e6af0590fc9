import DocPrologue.FileTree
import DocPrologue.Testing.CaseName

/-!
Reports of tests. A test fails by saying why, so it has passed when it has no message; a report has
the messages of a whole test and those of each of its cases.
-/

namespace DocPrologue.Testing

abbrev Messages := List Bytes

def Messages.failed (messages : Messages) : Bool := !messages.isEmpty

structure Report where
  messages : Messages
  cases : List (Bytes × Messages)
deriving DecidableEq, Repr

namespace Report

def failed (report : Report) : Bool :=
  report.messages.failed || report.cases.any fun case => Messages.failed case.2

def ofMessages (messages : Messages) : Report := ⟨messages, []⟩

def ofCases (cases : List (Bytes × Messages)) : Report :=
  ⟨[], cases.mergeSort fun left right => Bytes.le left.1 right.1⟩

end Report

def runCases {α β : Type} (nameOf : α → Bytes)
    (run : (name : Bytes) → α → FileTree → FileTree × β) (counts : CaseName.Counts) :
    List α → FileTree → FileTree × List (Bytes × β)
  | [], tree => (tree, [])
  | case :: rest, tree =>
    let (name, counts) := CaseName.claim counts (nameOf case)
    let (tree, result) := run name case tree
    let (tree, results) := runCases nameOf run counts rest tree
    (tree, (name, result) :: results)

end DocPrologue.Testing
