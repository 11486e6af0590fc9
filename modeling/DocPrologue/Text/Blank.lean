import DocPrologue.Text.Utf8

/-!
White space: the ASCII space and controls 9 to 13, the two Latin-1 spaces and the Unicode
separators. A text is blank when it holds nothing else; a stray byte is never white space.
-/

namespace DocPrologue.Text

def isSpace (code : Nat) : Bool :=
  (9 ≤ code && code ≤ 13) || code == 0x20 || code == 0x85 || code == 0xA0 || code == 0x1680 ||
    (0x2000 ≤ code && code ≤ 0x200A) || code == 0x2028 || code == 0x2029 || code == 0x202F ||
    code == 0x205F || code == 0x3000

def Glyph.isSpace : Glyph → Bool
  | .char code => Text.isSpace code
  | .stray _ => false

def isBlank : Bytes → Bool
  | [] => true
  | lead :: rest => (readGlyph lead rest).1.isSpace && isBlank (readGlyph lead rest).2
termination_by text => text.length
decreasing_by exact Nat.lt_succ_of_le (readGlyph_length_le lead rest)

def trim (text : Bytes) : Bytes :=
  let kept := (glyphs text).dropWhile Glyph.isSpace
  (kept.reverse.dropWhile Glyph.isSpace).reverse.flatMap Glyph.bytes

def extendWord (glyph : Glyph) : List Bytes → List Bytes
  | [] => [glyph.bytes]
  | word :: words => (glyph.bytes ++ word) :: words

def words (text : Bytes) : List Bytes :=
  ((glyphs text).foldr
    (fun glyph words => if glyph.isSpace then [] :: words else extendWord glyph words) [[]]).filter
    fun word => !word.isEmpty

end DocPrologue.Text
