import DocPrologue.Text.Utf8

/-!
The comment that documents a command, at the top of a source: the lines between a line that only
opens a block comment and a line that only closes one.
-/

namespace DocPrologue.DocComment

open Text (utf8)

inductive Error where
  | lineTooLong
deriving DecidableEq, Repr

def Error.message : Error → Bytes
  | lineTooLong => utf8 "bufio.Scanner: token too long"

def maxLine : Nat := 65536

def opening : Bytes := [Byte.slash, Byte.star]

def closing : Bytes := [Byte.star, Byte.slash]

def sourceLines (source : Bytes) : List Bytes :=
  let lines := Bytes.split Byte.lf source
  if lines.getLast? = some [] then lines.dropLast else lines

def commentLines (inside : Bool) : List Bytes → Except Error (List Bytes)
  | [] => .ok []
  | line :: rest =>
    if maxLine ≤ line.length then .error .lineTooLong
    else
      let text := Bytes.dropTrailing Byte.cr line
      if text = opening then commentLines true rest
      else if text = closing then .ok []
      else if inside then
        match commentLines inside rest with
        | .error error => .error error
        | .ok lines => .ok (text :: lines)
      else commentLines inside rest

def parse (source : Bytes) : Except Error Bytes :=
  match commentLines false (sourceLines source) with
  | .error error => .error error
  | .ok lines => .ok (lines.flatMap fun line => line ++ [Byte.lf])

end DocPrologue.DocComment
