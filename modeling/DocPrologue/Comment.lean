import DocPrologue.Text.Blank

/-!
Comments that carry documentation: where a block comment ends, and the text lines that line and
block comments stand for.
-/

namespace DocPrologue.Comment

open Text (isBlank)

def lineMark : Bytes := [Byte.slash, Byte.slash, Byte.bang]

def blockMark : Bytes := [Byte.slash, Byte.star, Byte.bang]

/-- How many bytes stand before the mark that closes a block comment. Comments nest: `inner` of
them are open inside it, and `passed` bytes of it stand before the text. -/
def closeFrom (inner passed : Nat) : Bytes → Option Nat
  | first :: second :: rest =>
    if first = Byte.slash ∧ second = Byte.star then closeFrom (inner + 1) (passed + 2) rest
    else if first = Byte.star ∧ second = Byte.slash then
      match inner with
      | 0 => some passed
      | outer + 1 => closeFrom outer (passed + 2) rest
    else closeFrom inner (passed + 1) (second :: rest)
  | _ => none

def bodyLength? (text : Bytes) : Option Nat := closeFrom 0 0 text

def lineText (rest : Bytes) : Bytes := Bytes.dropLeading Byte.space rest

/-- A line inside a block comment without the star that decorates it and one space after that.
Two stars are text. A line that is blank then is empty. -/
def continuation (line : Bytes) : Bytes :=
  let stripped :=
    match line.dropWhile Byte.isSpaceOrTab with
    | first :: rest =>
      if first = Byte.star ∧ rest.head? ≠ some Byte.star then Bytes.dropLeading Byte.space rest
      else line
    | [] => line
  if isBlank stripped then [] else stripped

def laterLines : List Bytes → List Bytes
  | [] => []
  | [last] =>
    if isBlank last then [] else [continuation (Bytes.dropTrailing Byte.space last)]
  | line :: rest => continuation line :: laterLines rest

def blockLines (body : Bytes) : List Bytes :=
  match (Bytes.split Byte.lf body).map (Bytes.dropTrailing Byte.cr) with
  | [] => []
  | [only] =>
    let text := Bytes.dropTrailing Byte.space (Bytes.dropLeading Byte.space only)
    if isBlank text then [] else [text]
  | first :: later =>
    let text := Bytes.dropLeading Byte.space first
    if isBlank text then laterLines later else text :: laterLines later

end DocPrologue.Comment
