import DocPrologue.Text.Utf8
import DocPrologue.Text.Decimal

/-!
The forms that a physical line at the top of a source can have. Three of them carry documentation;
the others classify positions where there is none.
-/

namespace DocPrologue

inductive Form where
  | endOfInput
  | code
  | blank
  | lineComment
  | blockComment
  | docAttribute
deriving DecidableEq, Repr

namespace Form

open Text (utf8 decimalInt)

def isDoc : Form → Bool
  | lineComment | blockComment | docAttribute => true
  | endOfInput | code | blank => false

def name : Form → Bytes
  | endOfInput => utf8 "EOF"
  | code => utf8 "none"
  | blank => utf8 "blank line"
  | lineComment => utf8 "line comment"
  | blockComment => utf8 "block comment"
  | docAttribute => utf8 "doc attribute"

def number : Form → Nat
  | endOfInput => 0
  | code => 1
  | blank => 2
  | lineComment => 3
  | blockComment => 4
  | docAttribute => 5

def ofNumber? : Int → Option Form
  | 0 => some endOfInput
  | 1 => some code
  | 2 => some blank
  | 3 => some lineComment
  | 4 => some blockComment
  | 5 => some docAttribute
  | _ => none

def nameOfNumber (number : Int) : Bytes :=
  match ofNumber? number with
  | some form => form.name
  | none => utf8 "Form(" ++ decimalInt number ++ utf8 ")"

def numberIsDoc (number : Int) : Bool := (ofNumber? number).any isDoc

theorem ofNumber?_number (form : Form) : ofNumber? form.number = some form := by
  cases form <;> rfl

end Form

end DocPrologue
