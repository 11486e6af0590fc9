import DocPrologue.Bytes

/-!
UTF-8. A text is read as characters and stray bytes: a character is a Unicode scalar value in its
shortest encoding, and a byte that starts no such encoding stands for itself.
-/

namespace DocPrologue.Text

def isScalar (code : Nat) : Bool :=
  code < 0xD800 || (0xE000 ≤ code && code < 0x110000)

def encode (code : Nat) : Bytes :=
  if code < 0x80 then [code.toUInt8]
  else if code < 0x800 then [(0xC0 + code / 64).toUInt8, (0x80 + code % 64).toUInt8]
  else if code < 0x10000 then
    [(0xE0 + code / 4096).toUInt8, (0x80 + code / 64 % 64).toUInt8, (0x80 + code % 64).toUInt8]
  else
    [(0xF0 + code / 262144).toUInt8, (0x80 + code / 4096 % 64).toUInt8,
      (0x80 + code / 64 % 64).toUInt8, (0x80 + code % 64).toUInt8]

def utf8 (text : String) : Bytes := text.toList.flatMap fun char => encode char.toNat

inductive Glyph where
  | char (code : Nat)
  | stray (byte : UInt8)
deriving DecidableEq, Repr

namespace Glyph

def bytes : Glyph → Bytes
  | char code => encode code
  | stray byte => [byte]

def isChar : Glyph → Bool
  | char _ => true
  | stray _ => false

end Glyph

def isContinuation (byte : UInt8) : Bool := 0x80 ≤ byte && byte < 0xC0

def code2 (lead second : UInt8) : Nat := (lead.toNat - 0xC0) * 64 + (second.toNat - 0x80)

def code3 (lead second third : UInt8) : Nat :=
  (lead.toNat - 0xE0) * 4096 + (second.toNat - 0x80) * 64 + (third.toNat - 0x80)

def code4 (lead second third fourth : UInt8) : Nat :=
  (lead.toNat - 0xF0) * 262144 + (second.toNat - 0x80) * 4096 + (third.toNat - 0x80) * 64 +
    (fourth.toNat - 0x80)

def readGlyph (lead : UInt8) (rest : Bytes) : Glyph × Bytes :=
  if lead < 0x80 then (.char lead.toNat, rest)
  else if 0xC2 ≤ lead && lead < 0xE0 then
    match rest with
    | second :: after =>
      if isContinuation second then (.char (code2 lead second), after) else (.stray lead, rest)
    | _ => (.stray lead, rest)
  else if 0xE0 ≤ lead && lead < 0xF0 then
    match rest with
    | second :: third :: after =>
      if isContinuation second && isContinuation third && 0x800 ≤ code3 lead second third &&
          isScalar (code3 lead second third) then
        (.char (code3 lead second third), after)
      else (.stray lead, rest)
    | _ => (.stray lead, rest)
  else if 0xF0 ≤ lead && lead < 0xF5 then
    match rest with
    | second :: third :: fourth :: after =>
      if isContinuation second && isContinuation third && isContinuation fourth &&
          0x10000 ≤ code4 lead second third fourth && isScalar (code4 lead second third fourth) then
        (.char (code4 lead second third fourth), after)
      else (.stray lead, rest)
    | _ => (.stray lead, rest)
  else (.stray lead, rest)

theorem readGlyph_length_le (lead : UInt8) (rest : Bytes) :
    (readGlyph lead rest).2.length ≤ rest.length := by
  unfold readGlyph
  repeat' split
  all_goals simp only [List.length_cons]
  all_goals omega

def glyphs : Bytes → List Glyph
  | [] => []
  | lead :: rest => (readGlyph lead rest).1 :: glyphs (readGlyph lead rest).2
termination_by text => text.length
decreasing_by exact Nat.lt_succ_of_le (readGlyph_length_le lead rest)

def isValidUtf8 (text : Bytes) : Bool := (glyphs text).all Glyph.isChar

end DocPrologue.Text
