import DocPrologue.Text.Utf8
import DocPrologue.Text.Decimal

/-!
Positions in a source. A `Place` is what reading a run of bytes leads to; a `Position` names the
file as well and is what messages show.
-/

namespace DocPrologue

open Text (utf8 decimalInt)

structure Place where
  offset : Nat
  line : Nat
  column : Nat
deriving DecidableEq, Repr

namespace Place

def start : Place := ⟨0, 1, 1⟩

def step (place : Place) (byte : UInt8) : Place :=
  if byte = Byte.lf then ⟨place.offset + 1, place.line + 1, 1⟩
  else ⟨place.offset + 1, place.line, place.column + 1⟩

def advance (place : Place) (passed : Bytes) : Place := passed.foldl step place

def advanceTo (place : Place) (text rest : Bytes) : Place :=
  place.advance (text.take (text.length - rest.length))

theorem advance_append (place : Place) (first second : Bytes) :
    place.advance (first ++ second) = (place.advance first).advance second :=
  List.foldl_append

end Place

structure Position where
  file : Bytes
  offset : Int
  line : Int
  column : Int
deriving DecidableEq, Repr

namespace Position

def ofPlace (file : Bytes) (place : Place) : Position :=
  ⟨file, place.offset, place.line, place.column⟩

def text (position : Position) : Bytes :=
  (if position.file.isEmpty then utf8 "<input>" else position.file) ++ utf8 ":" ++
    decimalInt position.line ++ utf8 ":" ++ decimalInt position.column

end Position

end DocPrologue
