import DocPrologue.Text.Quoted

/-!
String literals, plain and raw. Reading a literal gives the text it stands for and what follows it;
a literal that cannot be read gives the fault and the place of it.
-/

namespace DocPrologue.Literal

open Text (utf8)

inductive Fault where
  | expected
  | unterminated
  | unterminatedRaw (hashes : Nat)
  | bareReturn
  | incompleteHex
  | invalidHex
  | hexOutOfRange
  | missingBrace
  | invalidUnicodeDigit
  | overlongUnicode
  | unterminatedUnicode
  | emptyUnicode
  | invalidUnicode
  | unknownEscape (byte : UInt8)
deriving DecidableEq, Repr

def closing (hashes : Nat) : Bytes := Byte.quote :: List.replicate hashes Byte.hash

def Fault.message : Fault → Bytes
  | expected => utf8 "expected string literal"
  | unterminated => utf8 "unterminated string literal"
  | unterminatedRaw hashes =>
    utf8 "unterminated raw string literal, expected closing " ++ Text.quote (closing hashes)
  | bareReturn => utf8 "bare carriage return in string literal"
  | incompleteHex => utf8 "incomplete \\x escape"
  | invalidHex => utf8 "invalid \\x escape"
  | hexOutOfRange => utf8 "out of range \\x escape"
  | missingBrace => utf8 "incorrect \\u escape, expected '\x7b'"
  | invalidUnicodeDigit => utf8 "invalid character in \\u escape"
  | overlongUnicode => utf8 "overlong \\u escape"
  | unterminatedUnicode => utf8 "unterminated \\u escape"
  | emptyUnicode => utf8 "empty \\u escape"
  | invalidUnicode => utf8 "invalid unicode character in \\u escape"
  | unknownEscape byte => utf8 "unknown character escape " ++ Text.quoteChar byte.toNat

abbrev rawMark : UInt8 := 0x72

def isStart : Bytes → Bool
  | [] => false
  | byte :: rest =>
    byte == Byte.quote ||
      (byte == rawMark && (rest.dropWhile (· == Byte.hash)).head? == some Byte.quote)

def hexEscape : Bytes → Except Fault (Bytes × Bytes)
  | high :: low :: rest =>
    match Byte.hexValue? high, Byte.hexValue? low with
    | some highValue, some lowValue =>
      if highValue * 16 + lowValue < 0x80 then
        .ok ([(highValue * 16 + lowValue).toUInt8], rest)
      else .error .hexOutOfRange
    | _, _ => .error .invalidHex
  | _ => .error .incompleteHex

/-- The digits of a Unicode escape up to its closing brace. Underscores may follow the first digit.
`digits` counts those read so far and `value` is the number they spell. -/
def unicodeDigits (digits value : Nat) : Bytes → Except Fault (Bytes × Bytes)
  | [] => .error .unterminatedUnicode
  | byte :: rest =>
    if byte = Byte.closeBrace then
      if digits = 0 then .error .emptyUnicode
      else if Text.isScalar value then .ok (Text.encode value, rest)
      else .error .invalidUnicode
    else if byte = Byte.underscore ∧ 0 < digits then unicodeDigits digits value rest
    else
      match Byte.hexValue? byte with
      | none => .error .invalidUnicodeDigit
      | some digit =>
        if digits = 6 then .error .overlongUnicode
        else unicodeDigits (digits + 1) (value * 16 + digit) rest

def unicodeEscape : Bytes → Except Fault (Bytes × Bytes)
  | byte :: rest => if byte = Byte.openBrace then unicodeDigits 0 0 rest else .error .missingBrace
  | [] => .error .missingBrace

def simpleEscape? (byte : UInt8) : Option UInt8 :=
  if byte = 0x6E then some Byte.lf
  else if byte = 0x72 then some Byte.cr
  else if byte = 0x74 then some Byte.tab
  else if byte = 0x30 then some 0
  else if byte = Byte.backslash ∨ byte = Byte.apostrophe ∨ byte = Byte.quote then some byte
  else none

def escape : Bytes → Except Fault (Bytes × Bytes)
  | [] => .error .unterminated
  | byte :: rest =>
    match simpleEscape? byte with
    | some value => .ok ([value], rest)
    | none =>
      if byte = 0x78 then hexEscape rest
      else if byte = 0x75 then unicodeEscape rest
      else if byte = Byte.lf ∨ byte = Byte.cr then .ok ([], rest.dropWhile Byte.isGap)
      else .error (.unknownEscape byte)

theorem hexEscape_length {text value rest : Bytes} (read : hexEscape text = .ok (value, rest)) :
    rest.length ≤ text.length := by
  unfold hexEscape at read
  repeat' split at read
  all_goals first
    | contradiction
    | (simp only [Except.ok.injEq, Prod.mk.injEq] at read
       simp only [← read.2, List.length_cons]
       omega)

theorem unicodeDigits_length {digits number : Nat} {text value rest : Bytes}
    (read : unicodeDigits digits number text = .ok (value, rest)) : rest.length ≤ text.length := by
  induction text generalizing digits number with
  | nil => simp [unicodeDigits] at read
  | cons byte text ih =>
    unfold unicodeDigits at read
    repeat' split at read
    all_goals first
      | contradiction
      | (simp only [Except.ok.injEq, Prod.mk.injEq] at read
         simp only [← read.2, List.length_cons]
         omega)
      | (have bound := ih read
         simp only [List.length_cons]
         omega)

theorem escape_length {text value rest : Bytes} (read : escape text = .ok (value, rest)) :
    rest.length < text.length := by
  cases text with
  | nil => simp [escape] at read
  | cons byte text =>
    have gap := (List.dropWhile_suffix (p := Byte.isGap) (l := text)).length_le
    simp only [escape] at read
    repeat' split at read
    · simp only [Except.ok.injEq, Prod.mk.injEq] at read
      simp [← read.2]
    · exact Nat.lt_succ_of_le (hexEscape_length read)
    · unfold unicodeEscape at read
      split at read
      · split at read
        · have bound := unicodeDigits_length read
          simp only [List.length_cons]
          omega
        · contradiction
      · contradiction
    · simp only [Except.ok.injEq, Prod.mk.injEq] at read
      rw [← read.2, List.length_cons]
      omega
    · contradiction

/-- A plain literal after its opening quote. `value` holds what was read so far, last byte first,
and `whole` is the literal from its first byte. A fault comes with the text it stands at. -/
def plain (whole value : Bytes) : Bytes → Except (Fault × Bytes) (Bytes × Bytes)
  | [] => .error (.unterminated, whole)
  | byte :: rest =>
    if byte = Byte.quote then .ok (value.reverse, rest)
    else if byte = Byte.cr then
      if rest.head? = some Byte.lf then plain whole value rest
      else .error (.bareReturn, byte :: rest)
    else if byte = Byte.backslash then
      match _read : escape rest with
      | .error .unterminated => .error (.unterminated, whole)
      | .error fault => .error (fault, byte :: rest)
      | .ok (piece, after) => plain whole (piece.reverse ++ value) after
    else plain whole (byte :: value) rest
termination_by text => text.length
decreasing_by
  · simp
  · have bound := escape_length _read
    simp only [List.length_cons]
    omega
  · simp

def raw (whole rest : Bytes) : Except (Fault × Bytes) (Bytes × Bytes) :=
  let hashes := (rest.takeWhile (· == Byte.hash)).length
  match rest.dropWhile (· == Byte.hash) with
  | [] => .error (.expected, whole)
  | byte :: body =>
    if byte = Byte.quote then
      match Bytes.find? (closing hashes) body with
      | some length =>
        .ok (Bytes.dropReturns (body.take length), body.drop (length + hashes + 1))
      | none => .error (.unterminatedRaw hashes, whole)
    else .error (.expected, whole)

def read (text : Bytes) : Except (Fault × Bytes) (Bytes × Bytes) :=
  match text with
  | [] => .error (.expected, text)
  | byte :: rest =>
    if byte = rawMark then raw text rest
    else if byte = Byte.quote then plain text [] rest
    else .error (.expected, text)

structure Error where
  offset : Nat
  fault : Fault
deriving DecidableEq, Repr

def unquote (text : Bytes) : Except Error (Bytes × Nat) :=
  match read text with
  | .ok (value, rest) => .ok (value, text.length - rest.length)
  | .error (fault, spot) => .error ⟨text.length - spot.length, fault⟩

theorem plain_length {whole seen text value rest : Bytes}
    (done : plain whole seen text = .ok (value, rest)) : rest.length < text.length := by
  fun_induction plain whole seen text with
  | case1 => contradiction
  | case2 => simp_all
  | case3 =>
    rename_i ih
    have bound := ih done
    simp only [List.length_cons]
    omega
  | case4 => contradiction
  | case5 => contradiction
  | case6 => contradiction
  | case7 =>
    rename_i found _ _ ih
    have shorter := escape_length found
    have bound := ih done
    simp only [List.length_cons]
    omega
  | case8 =>
    rename_i ih
    have bound := ih done
    simp only [List.length_cons]
    omega

theorem read_length {text value rest : Bytes} (done : read text = .ok (value, rest)) :
    rest.length < text.length := by
  unfold read at done
  split at done
  · contradiction
  · rename_i byte tail
    split at done
    · unfold raw at done
      have hashes := (List.dropWhile_suffix (p := (· == Byte.hash)) (l := tail)).length_le
      simp only at done
      split at done
      · contradiction
      · rename_i mark body found
        rw [found, List.length_cons] at hashes
        split at done
        · split at done
          · simp only [Except.ok.injEq, Prod.mk.injEq] at done
            rw [← done.2, List.length_drop, List.length_cons]
            omega
          · contradiction
        · contradiction
    · split at done
      · have bound := plain_length done
        simp only [List.length_cons]
        omega
      · contradiction

end DocPrologue.Literal
