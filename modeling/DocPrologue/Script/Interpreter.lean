import DocPrologue.Script.Arguments
import DocPrologue.Script.Evaluation
import DocPrologue.Script.Source

/-! The interpreter of the small language. It refuses a text that is no program of the language. -/

namespace DocPrologue.Script

open Text (utf8)

def interpreter : Interpreter where
  unpack := unpack
  course filename source :=
    match Program.ofText? source with
    | none => .failed (.note (filename ++ utf8 ": not a manifest program"))
    | some program => courseOf program

end DocPrologue.Script
