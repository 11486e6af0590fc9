import DocPrologue.Text.Utf8

/-!
Tokens of a manifest's text: names, numbers, quoted texts, marks, and the starts of lines with their
indentation. Inside brackets line ends do not count.
-/

namespace DocPrologue.Script

open Text (utf8)

inductive Token where
  | name (name : Bytes)
  | number (value : Nat)
  | text (value : Bytes)
  | bytes (value : Bytes)
  | mark (byte : UInt8)
  | line (indent : Nat)
deriving DecidableEq, Repr

namespace Token

def escape? (letter : UInt8) : Option Bytes :=
  match letter.toNat with
  | 0x0A => some []
  | 0x22 | 0x27 | 0x5C => some [letter]
  | 0x61 => some [7]
  | 0x62 => some [8]
  | 0x66 => some [12]
  | 0x6E => some [10]
  | 0x72 => some [13]
  | 0x74 => some [9]
  | 0x76 => some [11]
  | _ => none

def quotes : List Bytes := ["\"\"\"", "'''", "\"", "'"].map utf8

def quoted (closing : Bytes) (raw : Bool) : Bytes → Option (Bytes × Bytes)
  | [] => none
  | byte :: rest =>
    match Bytes.after? closing (byte :: rest) with
    | some after => some ([], after)
    | none =>
      if byte = Byte.backslash then
        match rest with
        | [] => none
        | letter :: after =>
          match if raw then some [byte, letter] else escape? letter, quoted closing raw after with
          | some start, some (value, beyond) => some (start ++ value, beyond)
          | _, _ => none
      else if byte = Byte.lf ∧ closing.length = 1 then none
      else
        match quoted closing raw rest with
        | some (value, beyond) => some (byte :: value, beyond)
        | none => none

def quoteKinds : List (Bytes × Bool × Bool) :=
  [([], false, false), (utf8 "r", true, false), (utf8 "b", false, true), (utf8 "rb", true, true)]

def quotedToken? (text : Bytes) : Option (Token × Bytes) :=
  quoteKinds.findSome? fun (letters, raw, ofBytes) =>
    quotes.findSome? fun quote =>
      match Bytes.after? (letters ++ quote) text with
      | none => none
      | some body =>
        match quoted quote raw body with
        | none => none
        | some (value, after) => some (if ofBytes then .bytes value else .text value, after)

def isNameByte (byte : UInt8) : Bool := Byte.isWord byte || byte == Byte.dot

def numberOf (digits : Bytes) : Nat :=
  digits.foldl (fun value digit => value * 10 + (digit.toNat - 0x30)) 0

def openings : Bytes := utf8 "([\x7b"

def closings : Bytes := utf8 ")]\x7d"

def otherMarks : Bytes := utf8 ",:=*-"

def first? (text : Bytes) : Option (Token × Bytes) :=
  match quotedToken? text with
  | some found => some found
  | none =>
    match text with
    | [] => none
    | byte :: rest =>
      if Byte.isAsciiDigit byte then
        some (.number (numberOf (text.takeWhile Byte.isAsciiDigit)),
          text.dropWhile Byte.isAsciiDigit)
      else if Byte.isWord byte then
        some (.name (text.takeWhile isNameByte), text.dropWhile isNameByte)
      else if (openings ++ closings ++ otherMarks).contains byte then some (.mark byte, rest)
      else none

def depthAfter (depth : Nat) : Token → Nat
  | .mark byte =>
    if openings.contains byte then depth + 1
    else if closings.contains byte then depth - 1
    else depth
  | _ => depth

def scan : (fuel depth : Nat) → Bytes → Option (List Token)
  | 0, _, _ => none
  | _, _, [] => some []
  | fuel + 1, depth, byte :: rest =>
    if byte = Byte.lf then
      if depth = 0 then
        (scan fuel depth rest).map (line (rest.takeWhile Byte.isSpaceOrTab).length :: ·)
      else scan fuel depth rest
    else if Byte.isGap byte then scan fuel depth rest
    else if byte = Byte.hash then scan fuel depth (rest.dropWhile (· != Byte.lf))
    else
      match first? (byte :: rest) with
      | none => none
      | some (token, after) => (scan fuel (depthAfter depth token) after).map (token :: ·)

def dropEmptyLines : List Token → List Token
  | [] => []
  | line indent :: rest =>
    match dropEmptyLines rest with
    | [] => []
    | line next :: more => line next :: more
    | kept => line indent :: kept
  | token :: rest => token :: dropEmptyLines rest

def ofText? (text : Bytes) : Option (List Token) :=
  (scan (text.length + 2) 0 (Byte.lf :: text)).map dropEmptyLines

end Token

end DocPrologue.Script
