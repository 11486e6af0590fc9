import DocPrologue.Proofs.Characters
import DocPrologue.Proofs.LineComments

/-!
Valid UTF-8: texts that are the characters of scalar values, one behind the other. No such text goes
on inside a character where another one ended, so it may be cut wherever no character goes on, and
at every ASCII byte.
-/

namespace DocPrologue

namespace Text

inductive IsUtf8 : Bytes → Prop
  | nil : IsUtf8 []
  | char {code : Nat} {rest : Bytes} : isScalar code = true → IsUtf8 rest →
      IsUtf8 (encode code ++ rest)

def Starts (text : Bytes) : Prop :=
  ∀ byte, text.head? = some byte → isContinuation byte = false

def Ascii (text : Bytes) : Prop := ∀ byte ∈ text, byte < 0x80

-- Byte by byte of the text: there are few enough bytes for another instance to try them all.
instance decidableAscii (text : Bytes) : Decidable (Ascii text) :=
  List.decidableBAll (· < 0x80) text

section Characters

variable {code : Nat} {lead byte : UInt8} {tail front back text rest : Bytes}

theorem continues_tail (scalar : isScalar code = true) (spelled : encode code = lead :: tail) :
    ∀ byte ∈ tail, isContinuation byte = true := by
  have read := readGlyph_encode scalar spelled []
  rw [List.append_nil] at read
  obtain ⟨front, split, continued⟩ := readGlyph_split lead tail
  rw [read, List.append_nil] at split
  rwa [split]

theorem starts_cons (ascii : byte < 0x80) (rest : Bytes) : Starts (byte :: rest) := by
  intro first head
  obtain rfl := Option.some.inj head
  rw [Bool.eq_false_iff, ne_eq, isContinuation_iff]
  have bound := UInt8.lt_iff_toNat_lt.mp ascii
  have limit : (0x80 : UInt8).toNat = 0x80 := rfl
  omega

theorem encode_byte (ascii : byte < 0x80) : encode byte.toNat = [byte] := by
  have bound : byte.toNat < 0x80 := UInt8.lt_iff_toNat_lt.mp ascii
  rw [encode, if_pos bound]
  simp

theorem isScalar_byte (ascii : byte < 0x80) : isScalar byte.toNat = true := by
  have bound : byte.toNat < 0x80 := UInt8.lt_iff_toNat_lt.mp ascii
  simp only [isScalar, Bool.or_eq_true, decide_eq_true_eq]
  omega

theorem IsUtf8.starts (valid : IsUtf8 text) : Starts text := by
  cases valid with
  | nil => simp [Starts]
  | @char code rest scalar _ =>
      obtain ⟨lead, tail, spelled⟩ := List.exists_cons_of_ne_nil (encode_ne_nil code)
      intro byte head
      rw [spelled, List.cons_append, List.head?_cons] at head
      exact Option.some.inj head ▸ isContinuation_lead scalar spelled

theorem IsUtf8.append (first : IsUtf8 front) (second : IsUtf8 back) : IsUtf8 (front ++ back) := by
  induction first with
  | nil => exact second
  | char scalar _ ih =>
      rw [List.append_assoc]
      exact .char scalar ih

theorem isUtf8_encode (scalar : isScalar code = true) : IsUtf8 (encode code) := by
  have valid := IsUtf8.char scalar .nil
  rwa [List.append_nil] at valid

theorem cut_encode (scalar : isScalar code = true) (split : encode code = front ++ back)
    (filled : front ≠ []) (starts : Starts back) : back = [] := by
  obtain ⟨lead, tail, rfl⟩ := List.exists_cons_of_ne_nil filled
  cases back with
  | nil => rfl
  | cons byte back =>
      have continued := continues_tail scalar split byte (by simp)
      rw [starts byte rfl] at continued
      contradiction

theorem isUtf8_append_iff (starts : Starts back) :
    IsUtf8 (front ++ back) ↔ IsUtf8 front ∧ IsUtf8 back := by
  constructor
  · intro valid
    generalize whole : front ++ back = text at valid
    induction valid generalizing front with
    | nil =>
        obtain ⟨rfl, rfl⟩ := List.append_eq_nil_iff.mp whole
        exact ⟨.nil, .nil⟩
    | @char code rest scalar later ih =>
        rcases List.append_eq_append_iff.mp whole with ⟨middle, spelled, rfl⟩ | ⟨middle, rfl, rest⟩
        · by_cases empty : front = []
          · subst empty
            rw [List.nil_append] at spelled
            exact ⟨.nil, spelled ▸ .char scalar later⟩
          · have starts : Starts middle := by
              cases middle with
              | nil => simp [Starts]
              | cons byte middle => exact starts
            obtain rfl := cut_encode scalar spelled empty starts
            rw [List.append_nil] at spelled
            exact ⟨spelled ▸ isUtf8_encode scalar, later⟩
        · obtain ⟨first, second⟩ := ih rest.symm
          exact ⟨.char scalar first, second⟩
  · rintro ⟨first, second⟩
    exact first.append second

theorem isUtf8_byte (ascii : byte < 0x80) : IsUtf8 [byte] :=
  encode_byte ascii ▸ isUtf8_encode (isScalar_byte ascii)

theorem isUtf8_char_iff (scalar : isScalar code = true) :
    IsUtf8 (encode code ++ rest) ↔ IsUtf8 rest := by
  refine ⟨fun valid => ?_, .char scalar⟩
  generalize whole : encode code ++ rest = text at valid
  cases valid with
  | nil => exact absurd (List.append_eq_nil_iff.mp whole).1 (encode_ne_nil code)
  | @char other after otherScalar later =>
      obtain ⟨lead, tail, spelled⟩ := List.exists_cons_of_ne_nil (encode_ne_nil code)
      obtain ⟨otherLead, otherTail, otherSpelled⟩ :=
        List.exists_cons_of_ne_nil (encode_ne_nil other)
      rw [spelled, otherSpelled, List.cons_append, List.cons_append] at whole
      obtain ⟨rfl, behind⟩ := List.cons.inj whole
      have read := readGlyph_encode scalar spelled rest
      rw [behind, readGlyph_encode otherScalar otherSpelled] at read
      exact (Prod.mk.inj read).2 ▸ later

theorem isUtf8_cons_iff (ascii : byte < 0x80) : IsUtf8 (byte :: rest) ↔ IsUtf8 rest := by
  have first := @isUtf8_char_iff byte.toNat rest (isScalar_byte ascii)
  rwa [encode_byte ascii, List.singleton_append] at first

theorem isUtf8_around_iff (ascii : byte < 0x80) :
    IsUtf8 (front ++ byte :: back) ↔ IsUtf8 front ∧ IsUtf8 back :=
  (isUtf8_append_iff (starts_cons ascii back)).trans
    (and_congr_right fun _ => isUtf8_cons_iff ascii)

theorem IsUtf8.suffix (valid : IsUtf8 text) (within : rest <:+ text) (starts : Starts rest) :
    IsUtf8 rest := by
  obtain ⟨front, rfl⟩ := within
  exact ((isUtf8_append_iff starts).mp valid).2

theorem IsUtf8.remove (valid : IsUtf8 (front ++ byte :: back)) (ascii : byte < 0x80) :
    IsUtf8 (front ++ back) := by
  obtain ⟨first, second⟩ := (isUtf8_around_iff ascii).mp valid
  exact first.append second

theorem Ascii.isUtf8 (ascii : Ascii text) : IsUtf8 text := by
  induction text with
  | nil => exact .nil
  | cons byte text ih =>
      rw [isUtf8_cons_iff (ascii byte (by simp))]
      exact ih fun other member => ascii other (by simp [member])

theorem isUtf8_behind_iff (ascii : Ascii front) : IsUtf8 (front ++ back) ↔ IsUtf8 back := by
  induction front with
  | nil => rfl
  | cons byte front ih =>
      rw [List.cons_append, isUtf8_cons_iff (ascii byte (by simp)),
        ih fun other member => ascii other (by simp [member])]

theorem isUtf8_front_iff (ascii : Ascii back) : IsUtf8 (front ++ back) ↔ IsUtf8 front := by
  cases back with
  | nil => rw [List.append_nil]
  | cons byte back =>
      have later : IsUtf8 back := Ascii.isUtf8 fun other member => ascii other (by simp [member])
      rw [isUtf8_around_iff (ascii byte (by simp)), and_iff_left later]

theorem isUtf8_utf8 (text : String) : IsUtf8 (utf8 text) := by
  unfold utf8
  induction text.toList with
  | nil => exact .nil
  | cons first others ih =>
      have scalar : isScalar first.toNat = true := by
        have valid : first.toNat < 0xD800 ∨ 0xDFFF < first.toNat ∧ first.toNat < 0x110000 :=
          first.valid
        simp only [isScalar, Bool.or_eq_true, Bool.and_eq_true, decide_eq_true_eq]
        omega
      exact .char scalar ih

end Characters

section Reading

variable {code : Nat} {lead second third fourth : UInt8} {text rest after : Bytes}

theorem eq_toUInt8 {value : Nat} (byte : UInt8) (same : byte.toNat = value) :
    value.toUInt8 = byte := by
  rw [← same]
  simp

theorem encode_code2 (led : 0xC2 ≤ lead.toNat ∧ lead.toNat < 0xE0)
    (continued : isContinuation second = true) : encode (code2 lead second) = [lead, second] := by
  rw [isContinuation_iff] at continued
  have code : code2 lead second = (lead.toNat - 0xC0) * 64 + (second.toNat - 0x80) := rfl
  rw [encode, if_neg (by omega), if_pos (by omega), eq_toUInt8 lead (by omega),
    eq_toUInt8 second (by omega)]

theorem isScalar_code2 (led : lead.toNat < 0xE0) (continued : isContinuation second = true) :
    isScalar (code2 lead second) = true := by
  rw [isContinuation_iff] at continued
  have small : code2 lead second < 0xD800 := by
    unfold code2
    omega
  rw [isScalar, decide_eq_true small, Bool.true_or]

theorem encode_code3 (led : 0xE0 ≤ lead.toNat ∧ lead.toNat < 0xF0)
    (continued : isContinuation second = true) (ended : isContinuation third = true)
    (shortest : 0x800 ≤ code3 lead second third) :
    encode (code3 lead second third) = [lead, second, third] := by
  rw [isContinuation_iff] at continued ended
  have code : code3 lead second third = (lead.toNat - 0xE0) * 4096 + (second.toNat - 0x80) * 64 +
    (third.toNat - 0x80) := rfl
  rw [encode, if_neg (by omega), if_neg (by omega), if_pos (by omega),
    eq_toUInt8 lead (by omega), eq_toUInt8 second (by omega),
    eq_toUInt8 third (by omega)]

theorem encode_code4 (led : 0xF0 ≤ lead.toNat ∧ lead.toNat < 0xF5)
    (continued : isContinuation second = true) (further : isContinuation third = true)
    (ended : isContinuation fourth = true) (shortest : 0x10000 ≤ code4 lead second third fourth) :
    encode (code4 lead second third fourth) = [lead, second, third, fourth] := by
  rw [isContinuation_iff] at continued further ended
  have code : code4 lead second third fourth = (lead.toNat - 0xF0) * 262144 +
    (second.toNat - 0x80) * 4096 + (third.toNat - 0x80) * 64 + (fourth.toNat - 0x80) := rfl
  rw [encode, if_neg (by omega), if_neg (by omega), if_neg (by omega),
    eq_toUInt8 lead (by omega), eq_toUInt8 second (by omega),
    eq_toUInt8 third (by omega), eq_toUInt8 fourth (by omega)]

theorem char_of_eq {code other : Nat} {text after : Bytes}
    (read : (Glyph.char other, text) = (.char code, after)) : other = code ∧ text = after := by
  obtain ⟨same, rest⟩ := Prod.mk.inj read
  exact ⟨Glyph.char.inj same, rest⟩

theorem readGlyph_eq_char (read : readGlyph lead rest = (.char code, after)) :
    isScalar code = true ∧ lead :: rest = encode code ++ after := by
  revert read
  fun_cases readGlyph lead rest with
  | case1 rest ascii =>
      intro read
      obtain ⟨rfl, rfl⟩ := char_of_eq read
      exact ⟨isScalar_byte ascii, by rw [encode_byte ascii]; rfl⟩
  | case2 _ led second rest continued =>
      intro read
      obtain ⟨rfl, rfl⟩ := char_of_eq read
      simp only [Bool.and_eq_true, decide_eq_true_eq, UInt8.le_iff_toNat_le,
        UInt8.lt_iff_toNat_lt] at led
      rw [encode_code2 led continued]
      exact ⟨isScalar_code2 led.2 continued, rfl⟩
  | case5 _ _ led second third rest checked =>
      intro read
      obtain ⟨rfl, rfl⟩ := char_of_eq read
      simp only [Bool.and_eq_true, decide_eq_true_eq, UInt8.le_iff_toNat_le,
        UInt8.lt_iff_toNat_lt] at led checked
      obtain ⟨⟨⟨continued, ended⟩, shortest⟩, scalar⟩ := checked
      rw [encode_code3 led continued ended shortest]
      exact ⟨scalar, rfl⟩
  | case8 _ _ _ led second third fourth rest checked =>
      intro read
      obtain ⟨rfl, rfl⟩ := char_of_eq read
      simp only [Bool.and_eq_true, decide_eq_true_eq, UInt8.le_iff_toNat_le,
        UInt8.lt_iff_toNat_lt] at led checked
      obtain ⟨⟨⟨⟨continued, further⟩, ended⟩, shortest⟩, scalar⟩ := checked
      rw [encode_code4 led continued further ended shortest]
      exact ⟨scalar, rfl⟩
  | _ =>
      intro read
      cases (Prod.mk.inj read).1

theorem isValidUtf8_iff : isValidUtf8 text = true ↔ IsUtf8 text := by
  constructor
  · intro checked
    unfold isValidUtf8 at checked
    fun_induction glyphs text with
    | case1 => exact .nil
    | case2 lead rest ih =>
        simp only [List.all_cons, Bool.and_eq_true] at checked
        obtain ⟨first, later⟩ := checked
        rcases read : readGlyph lead rest with ⟨code | byte, after⟩
        · obtain ⟨scalar, whole⟩ := readGlyph_eq_char read
          rw [whole]
          rw [read] at ih later
          exact .char scalar (ih later)
        · rw [read] at first
          contradiction
  · intro valid
    induction valid with
    | nil => rw [isValidUtf8, glyphs, List.all_nil]
    | @char code rest scalar _ ih =>
        obtain ⟨lead, tail, spelled⟩ := List.exists_cons_of_ne_nil (encode_ne_nil code)
        rw [spelled, List.cons_append, isValidUtf8, glyphs, readGlyph_encode scalar spelled]
        exact ih

end Reading

end Text

namespace Bytes

open Text

variable {byte separator : UInt8} {drop : UInt8 → Bool} {front between text : Bytes}
  {parts : List Bytes}

theorem isUtf8_dropLeading (ascii : byte < 0x80) (text : Bytes) :
    IsUtf8 (dropLeading byte text) ↔ IsUtf8 text := by
  fun_cases dropLeading byte text with
  | case1 => rfl
  | case2 rest => exact (isUtf8_cons_iff ascii).symm
  | case3 => rfl

theorem isUtf8_dropTrailing (ascii : byte < 0x80) (text : Bytes) :
    IsUtf8 (dropTrailing byte text) ↔ IsUtf8 text := by
  rcases dropTrailing_eq_or byte text with same | shorter
  · rw [same]
  · have ended : Ascii [byte] := by simpa [Ascii] using ascii
    conv => rhs; rw [shorter]
    exact (isUtf8_front_iff ended).symm

theorem isUtf8_dropWhile (ascii : ∀ byte, drop byte = true → byte < 0x80) (text : Bytes) :
    IsUtf8 (text.dropWhile drop) ↔ IsUtf8 text := by
  have dropped : Ascii (text.takeWhile drop) := fun byte member =>
    ascii byte (List.all_eq_true.mp List.all_takeWhile byte member)
  conv => rhs; rw [← List.takeWhile_append_dropWhile (p := drop) (l := text)]
  exact (isUtf8_behind_iff dropped).symm

theorem isUtf8_trimRight (ascii : ∀ byte, drop byte = true → byte < 0x80) (text : Bytes) :
    IsUtf8 (trimRight drop text) ↔ IsUtf8 text := by
  obtain ⟨dropped, split, drops⟩ := trimRight_split drop text
  have ended : Ascii dropped := fun byte member => ascii byte (drops byte member)
  conv => rhs; rw [split]
  exact (isUtf8_front_iff ended).symm

theorem isUtf8_flatMap (filled : between ≠ []) (ascii : Ascii between) :
    IsUtf8 (front ++ parts.flatMap fun part => between ++ part) ↔
      IsUtf8 front ∧ ∀ part ∈ parts, IsUtf8 part := by
  obtain ⟨first, rest, rfl⟩ := List.exists_cons_of_ne_nil filled
  have later : Ascii rest := fun byte member => ascii byte (by simp [member])
  induction parts generalizing front with
  | nil => simp
  | cons part parts ih =>
      rw [List.flatMap_cons, List.append_assoc, List.cons_append,
        isUtf8_around_iff (ascii first (by simp)), isUtf8_behind_iff later, List.forall_mem_cons]
      exact and_congr_right fun _ => ih

theorem isUtf8_join_iff (filled : between ≠ []) (ascii : Ascii between) :
    IsUtf8 (join between parts) ↔ ∀ part ∈ parts, IsUtf8 part := by
  cases parts with
  | nil => simp [join, IsUtf8.nil]
  | cons part parts => rw [join, isUtf8_flatMap filled ascii, List.forall_mem_cons]

theorem isUtf8_ended_iff (ascii : byte < 0x80) :
    IsUtf8 (parts.flatMap fun part => part ++ [byte]) ↔ ∀ part ∈ parts, IsUtf8 part := by
  induction parts with
  | nil => simp [IsUtf8.nil]
  | cons part parts ih =>
      rw [List.flatMap_cons, List.append_assoc, List.singleton_append, isUtf8_around_iff ascii, ih,
        List.forall_mem_cons]

theorem isUtf8_split_iff (ascii : separator < 0x80) :
    (∀ part ∈ split separator text, IsUtf8 part) ↔ IsUtf8 text := by
  have between : Ascii [separator] := by simpa [Ascii] using ascii
  rw [← isUtf8_join_iff (by simp) between, join_split]

theorem isUtf8_line (valid : IsUtf8 text) : IsUtf8 (line text) := by
  obtain ⟨others, shape⟩ := exists_lines_cons text
  have first : line text ∈ lines text := shape ▸ List.mem_cons_self ..
  obtain ⟨part, isPart, same⟩ := List.mem_map.mp first
  rw [← same, isUtf8_dropTrailing (by decide)]
  exact (isUtf8_split_iff (by decide)).mpr valid part isPart

theorem isUtf8_afterLine (valid : IsUtf8 text) : IsUtf8 (afterLine text) := by
  by_cases feed : Byte.lf ∈ text
  · obtain ⟨body, rest, rfl, inside⟩ := List.eq_append_cons_of_mem feed
    rw [afterLine_of_body inside]
    exact ((isUtf8_around_iff (by decide)).mp valid).2
  · rw [afterLine_of_no_feed feed]
    exact .nil

theorem isUtf8_dropReturns (valid : IsUtf8 (front ++ text)) :
    IsUtf8 (front ++ dropReturns text) := by
  fun_induction dropReturns text generalizing front with
  | case1 => exact valid
  | case2 byte rest returns ih =>
      rw [returns.1] at valid
      exact ih (valid.remove (by decide))
  | case3 byte rest _ ih =>
      rw [List.append_cons] at valid ⊢
      exact ih valid

end Bytes

end DocPrologue
