import DocPrologue.Text.Letter
import DocPrologue.Text.Quoted

/-!
Output formats: the joined text as it is, or a Go file that holds it as the package comment. In a
Go file every line of the text is a comment line of its own, so no text can leave the comment.
-/

namespace DocPrologue

open Text (utf8 quote)

inductive Format where
  | raw
  | go
deriving DecidableEq, Repr

inductive RenderError where
  | unknownName (name : Bytes)
  | unknownFormat (name : Bytes)
  | invalidPackage (name : Bytes)
deriving DecidableEq, Repr

namespace Format

def name : Format → Bytes
  | raw => utf8 "raw"
  | go => utf8 "go"

def ofName? (name : Bytes) : Option Format :=
  if name.isEmpty ∨ name = raw.name then some raw
  else if name = go.name then some go
  else none

def parse (name : Bytes) : Except RenderError Format :=
  match ofName? name with
  | some format => .ok format
  | none => .error (.unknownName name)

end Format

def RenderError.message : RenderError → Bytes
  | unknownName name =>
    utf8 "unknown format " ++ quote name ++ utf8 ", want " ++ quote Format.raw.name ++
      utf8 " or " ++ quote Format.go.name
  | unknownFormat name => utf8 "unknown format " ++ quote name
  | invalidPackage name => utf8 "invalid package name " ++ quote name

namespace Format

def keywords : List Bytes :=
  ["break", "case", "chan", "const", "continue", "default", "defer", "else", "fallthrough", "for",
    "func", "go", "goto", "if", "import", "interface", "map", "package", "range", "return",
    "select", "struct", "switch", "type", "var"].map utf8

def startsIdentifier : Text.Glyph → Bool
  | .char code => Text.isLetter code || code == Byte.underscore.toNat
  | .stray _ => false

def continuesIdentifier (glyph : Text.Glyph) : Bool :=
  startsIdentifier glyph ||
    match glyph with
    | .char code => Text.isDecimalDigit code
    | .stray _ => false

def isIdentifier (name : Bytes) : Bool :=
  match Text.glyphs name with
  | [] => false
  | first :: rest =>
    startsIdentifier first && rest.all continuesIdentifier && !keywords.contains name

def header : Bytes := utf8 "// Code generated by includedocs. DO NOT EDIT."

def commentLine (line : Bytes) : Bytes :=
  match Bytes.trimRight Byte.isSpaceOrTab line with
  | [] => [Byte.slash, Byte.slash]
  | first :: rest =>
    if first = Byte.tab then Byte.slash :: Byte.slash :: first :: rest
    else Byte.slash :: Byte.slash :: Byte.space :: first :: rest

def commentLines (text : Bytes) : List Bytes :=
  if text.isEmpty then [] else (Bytes.split Byte.lf text).map commentLine

def goFile (package text : Bytes) : Except RenderError Bytes :=
  if isIdentifier package then
    .ok (header ++ [Byte.lf, Byte.lf] ++
      (commentLines text).flatMap (fun line => line ++ [Byte.lf]) ++
      utf8 "package " ++ package ++ [Byte.lf])
  else .error (.invalidPackage package)

def render (format : Format) (package text : Bytes) : Except RenderError Bytes :=
  match format with
  | raw => .ok text
  | go => goFile package text

def renderNamed (name package text : Bytes) : Except RenderError Bytes :=
  match ofName? name with
  | some format => render format package text
  | none => .error (.unknownFormat name)

end Format

end DocPrologue
