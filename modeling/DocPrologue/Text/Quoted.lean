import DocPrologue.Text.Utf8
import DocPrologue.Text.Printable

/-!
Quoted texts in messages. Printable characters stand for themselves, the quote and the backslash
take a backslash, and all else is spelled by a short escape or by its number.
-/

namespace DocPrologue.Text

def hexDigit (value : Nat) : UInt8 :=
  if value < 10 then (0x30 + value).toUInt8 else (0x61 + (value - 10)).toUInt8

def hexDigits : (width value : Nat) → Bytes
  | 0, _ => []
  | width + 1, value => hexDigits width (value / 16) ++ [hexDigit (value % 16)]

def shortEscape? (code : Nat) : Option UInt8 :=
  match code with
  | 7 => some 0x61
  | 8 => some 0x62
  | 9 => some 0x74
  | 10 => some 0x6E
  | 11 => some 0x76
  | 12 => some 0x66
  | 13 => some 0x72
  | _ => none

def quotedChar (mark : UInt8) (code : Nat) : Bytes :=
  if code = mark.toNat ∨ code = Byte.backslash.toNat then [Byte.backslash, code.toUInt8]
  else if isPrintable code then encode code
  else match shortEscape? code with
    | some letter => [Byte.backslash, letter]
    | none =>
      if code < 0x20 ∨ code = 0x7F then [Byte.backslash, 0x78] ++ hexDigits 2 code
      else if code < 0x10000 then [Byte.backslash, 0x75] ++ hexDigits 4 code
      else [Byte.backslash, 0x55] ++ hexDigits 8 code

def quotedGlyph (mark : UInt8) : Glyph → Bytes
  | .char code => quotedChar mark code
  | .stray byte => [Byte.backslash, 0x78] ++ hexDigits 2 byte.toNat

def quote (text : Bytes) : Bytes :=
  [Byte.quote] ++ (glyphs text).flatMap (quotedGlyph Byte.quote) ++ [Byte.quote]

def quoteChar (code : Nat) : Bytes :=
  [Byte.apostrophe] ++ quotedChar Byte.apostrophe code ++ [Byte.apostrophe]

def quoteList (texts : List Bytes) : Bytes :=
  [Byte.openBracket] ++ Bytes.join [Byte.space] (texts.map quote) ++ [Byte.closeBracket]

end DocPrologue.Text
