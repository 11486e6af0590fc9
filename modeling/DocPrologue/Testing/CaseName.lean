import DocPrologue.Text.Blank
import DocPrologue.Text.Decimal
import DocPrologue.Text.Quoted

/-!
Names of test cases. A name is made plain, so that it is one printable word, and is numbered when a
case before it has the same name.
-/

namespace DocPrologue.Testing.CaseName

open Text (utf8 decimal)

def isSpace (code : Nat) : Bool := Text.isSpace code || code == 0x180E

def replacement : Nat := 0xFFFD

def plainGlyph : Text.Glyph → Bytes
  | .char code =>
    if isSpace code then [Byte.underscore]
    else if Text.isPrintable code then Text.encode code
    else Text.quotedChar Byte.apostrophe code
  | .stray _ => Text.encode replacement

def plain (name : Bytes) : Bytes := (Text.glyphs name).flatMap plainGlyph

abbrev Counts := List (Bytes × Nat)

namespace Counts

def get (counts : Counts) (name : Bytes) : Nat := (counts.lookup name).getD 0

def bump (counts : Counts) (name : Bytes) : Counts := (name, counts.get name + 1) :: counts

end Counts

def numbered (name : Bytes) (number : Nat) : Bytes :=
  name ++ [Byte.hash] ++ (if number < 10 then utf8 "0" else []) ++ decimal number

def digits? (text : Bytes) : Option Nat :=
  if text.isEmpty || !text.all Byte.isAsciiDigit then none
  else some (text.foldl (fun value digit => value * 10 + (digit.toNat - 0x30)) 0)

def number? : Bytes → Option Nat
  | [] => none
  | first :: rest =>
    if first = Byte.plus then digits? rest
    else if first = Byte.dash then
      match digits? rest with
      | some 0 => some 0
      | _ => none
    else digits? (first :: rest)

def maxNumber : Nat := 2147483648

def parts? (name : Bytes) : Option (Bytes × Nat) :=
  let ending := (name.reverse.takeWhile (· != Byte.hash)).reverse
  let stem := name.take (name.length - ending.length - 1)
  if !name.contains Byte.hash || ending.length < 2 then none
  else if 2 < ending.length && Bytes.startsWith (utf8 "0") ending then none
  else if ending = utf8 "00" ∧ ¬ stem.isEmpty ∧ stem.getLast? ≠ some Byte.slash then none
  else
    match number? ending with
    | some number => if number < maxNumber then some (stem, number) else none
    | none => none

def isGiven (counts : Counts) (name : Bytes) : Bool :=
  match parts? name with
  | some (stem, number) => number < counts.get stem
  | none => false

def claimFrom (name : Bytes) : (attempts : Nat) → Counts → Bytes × Counts
  | 0, counts => (name, counts)
  | attempts + 1, counts =>
    let bumped := counts.bump name
    if counts.get name = 0 ∧ ¬ name.isEmpty then
      if isGiven bumped name then claimFrom name attempts bumped else (name, bumped)
    else
      let candidate := numbered name (counts.get name)
      if bumped.get candidate = 0 then (candidate, bumped) else claimFrom name attempts bumped

/-- The name of the next case. Every number that is refused is the name of a case before, so there
are not more attempts than cases, and two. -/
def claim (counts : Counts) (name : Bytes) : Bytes × Counts :=
  claimFrom (plain name) (counts.length + 2) counts

end DocPrologue.Testing.CaseName
