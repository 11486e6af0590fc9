/-!
Texts as lists of bytes. Sources, paths and messages need not be valid UTF-8, and positions count
bytes, so every text of the project is a `Bytes`.
-/

namespace DocPrologue

abbrev Bytes := List UInt8

namespace Byte

abbrev tab : UInt8 := 0x09
abbrev lf : UInt8 := 0x0A
abbrev cr : UInt8 := 0x0D
abbrev space : UInt8 := 0x20
abbrev bang : UInt8 := 0x21
abbrev quote : UInt8 := 0x22
abbrev hash : UInt8 := 0x23
abbrev apostrophe : UInt8 := 0x27
abbrev star : UInt8 := 0x2A
abbrev plus : UInt8 := 0x2B
abbrev dash : UInt8 := 0x2D
abbrev dot : UInt8 := 0x2E
abbrev slash : UInt8 := 0x2F
abbrev equals : UInt8 := 0x3D
abbrev question : UInt8 := 0x3F
abbrev openBracket : UInt8 := 0x5B
abbrev backslash : UInt8 := 0x5C
abbrev closeBracket : UInt8 := 0x5D
abbrev caret : UInt8 := 0x5E
abbrev underscore : UInt8 := 0x5F
abbrev openBrace : UInt8 := 0x7B
abbrev closeBrace : UInt8 := 0x7D

def isGap (byte : UInt8) : Bool :=
  byte == space || byte == tab || byte == cr || byte == lf

def isSpaceOrTab (byte : UInt8) : Bool := byte == space || byte == tab

def isAsciiDigit (byte : UInt8) : Bool := 0x30 ≤ byte && byte ≤ 0x39

def isWord (byte : UInt8) : Bool :=
  byte == underscore || isAsciiDigit byte || (0x61 ≤ byte && byte ≤ 0x7A) ||
    (0x41 ≤ byte && byte ≤ 0x5A)

def hexValue? (byte : UInt8) : Option Nat :=
  if isAsciiDigit byte then some (byte.toNat - 0x30)
  else if 0x61 ≤ byte && byte ≤ 0x66 then some (byte.toNat - 0x61 + 10)
  else if 0x41 ≤ byte && byte ≤ 0x46 then some (byte.toNat - 0x41 + 10)
  else none

end Byte

namespace Bytes

def dropLeading (byte : UInt8) : Bytes → Bytes
  | [] => []
  | first :: rest => if first = byte then rest else first :: rest

def dropTrailing (byte : UInt8) (text : Bytes) : Bytes :=
  if text.getLast? = some byte then text.dropLast else text

def trimRight (drop : UInt8 → Bool) (text : Bytes) : Bytes :=
  (text.reverse.dropWhile drop).reverse

def after? : (start text : Bytes) → Option Bytes
  | [], text => some text
  | _ :: _, [] => none
  | expected :: start, byte :: text => if byte = expected then after? start text else none

def startsWith (start text : Bytes) : Bool := (after? start text).isSome

def endsWith (ending text : Bytes) : Bool := startsWith ending.reverse text.reverse

/-- How many bytes stand before the first `needle`; `passed` bytes stand before `text`. -/
def findFrom (needle : Bytes) (passed : Nat) : Bytes → Option Nat
  | [] => if needle.isEmpty then some passed else none
  | byte :: rest =>
    if startsWith needle (byte :: rest) then some passed else findFrom needle (passed + 1) rest

def find? (needle text : Bytes) : Option Nat := findFrom needle 0 text

def containsText (needle text : Bytes) : Bool := (find? needle text).isSome

def extendFirst (byte : UInt8) : List Bytes → List Bytes
  | [] => [[byte]]
  | part :: parts => (byte :: part) :: parts

def split (separator : UInt8) (text : Bytes) : List Bytes :=
  text.foldr
    (fun byte parts => if byte = separator then [] :: parts else extendFirst byte parts) [[]]

def join (separator : Bytes) : List Bytes → Bytes
  | [] => []
  | part :: parts => part ++ parts.flatMap fun next => separator ++ next

def dropReturns : Bytes → Bytes
  | [] => []
  | byte :: rest =>
    if byte = Byte.cr ∧ rest.head? = some Byte.lf then dropReturns rest
    else byte :: dropReturns rest

def line (text : Bytes) : Bytes :=
  dropTrailing Byte.cr (text.takeWhile (· != Byte.lf))

def afterLine (text : Bytes) : Bytes :=
  (text.dropWhile (· != Byte.lf)).drop 1

def wholeLine (text : Bytes) : Bytes :=
  text.takeWhile (· != Byte.lf) ++ (text.dropWhile (· != Byte.lf)).take 1

def le : Bytes → Bytes → Bool
  | [], _ => true
  | _ :: _, [] => false
  | left :: lefts, right :: rights =>
    if left < right then true else if right < left then false else le lefts rights

def sortUnique (texts : List Bytes) : List Bytes :=
  (texts.mergeSort le).foldr
    (fun text kept => if kept.head? = some text then kept else text :: kept) []

theorem afterLine_length_le (text : Bytes) : (afterLine text).length ≤ text.length := by
  have bound := (List.dropWhile_suffix (p := (· != Byte.lf)) (l := text)).length_le
  simp only [afterLine, List.length_drop]
  omega

theorem afterLine_length_lt {text : Bytes} (nonempty : text ≠ []) :
    (afterLine text).length < text.length := by
  have bound := (List.dropWhile_suffix (p := (· != Byte.lf)) (l := text)).length_le
  have positive := List.length_pos_iff.mpr nonempty
  simp only [afterLine, List.length_drop]
  omega

end Bytes

end DocPrologue
