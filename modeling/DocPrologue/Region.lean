import DocPrologue.Form
import DocPrologue.Position
import DocPrologue.Attribute

/-!
Regions: the pieces that the top of a source falls into, and the ways in which one that carries
documentation can be malformed.
-/

namespace DocPrologue

open Text (utf8)

structure Region where
  form : Form
  position : Position
  lines : List Bytes
  trailing : Bool
deriving DecidableEq, Repr

namespace Malformed

inductive Reason where
  | unterminatedBlock
  | badAttribute (fault : Attribute.Fault)
deriving DecidableEq, Repr

def Reason.message : Reason → Bytes
  | unterminatedBlock => utf8 "unterminated block comment"
  | badAttribute (.literal fault) => fault.message
  | badAttribute .delimiterMismatch => utf8 "raw string literal delimiter mismatch"
  | badAttribute .unclosed => utf8 "expected ']' to close doc attribute"

end Malformed

structure Malformed where
  position : Position
  reason : Malformed.Reason
deriving DecidableEq, Repr

def Malformed.message (error : Malformed) : Bytes :=
  error.position.text ++ utf8 ": " ++ error.reason.message

end DocPrologue
