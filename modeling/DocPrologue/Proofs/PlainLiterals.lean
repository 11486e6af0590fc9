import DocPrologue.Proofs.AttributeGrammar
import DocPrologue.Proofs.Characters
import Mathlib.Data.List.Forall2

/-!
The grammar of plain literals. Between its quotes a plain literal is a sequence of items, each of
which stands for some bytes. Reading takes these items one by one, so it accepts exactly the texts
that begin with such a literal, and it finds one literal only.
-/

namespace DocPrologue

namespace Byte

def IsHexDigit (byte : UInt8) (value : Nat) : Prop :=
  value < 10 ∧ byte.toNat = 0x30 + value ∨
    10 ≤ value ∧ value < 16 ∧
      (byte.toNat = 0x41 + (value - 10) ∨ byte.toNat = 0x61 + (value - 10))

instance (byte : UInt8) (value : Nat) : Decidable (IsHexDigit byte value) :=
  inferInstanceAs (Decidable (_ ∨ _))

variable {byte : UInt8} {value other : Nat}

theorem hexValue?_eq_some_iff : hexValue? byte = some value ↔ IsHexDigit byte value := by
  simp only [hexValue?, isAsciiDigit, IsHexDigit, Bool.and_eq_true, decide_eq_true_eq,
    UInt8.le_iff_toNat_le]
  have decimal : (0x30 : UInt8).toNat = 0x30 ∧ (0x39 : UInt8).toNat = 0x39 := by decide
  have lower : (0x61 : UInt8).toNat = 0x61 ∧ (0x66 : UInt8).toNat = 0x66 := by decide
  have upper : (0x41 : UInt8).toNat = 0x41 ∧ (0x46 : UInt8).toNat = 0x46 := by decide
  constructor
  · intro found
    repeat' split at found
    all_goals simp only [Option.some.injEq, reduceCtorEq] at found
    all_goals omega
  · intro digit
    repeat' split
    all_goals simp only [Option.some.injEq, reduceCtorEq]
    all_goals omega

theorem IsHexDigit.unique (first : IsHexDigit byte value) (second : IsHexDigit byte other) :
    value = other :=
  Option.some.inj ((hexValue?_eq_some_iff.mpr first).symm.trans (hexValue?_eq_some_iff.mpr second))

theorem IsHexDigit.ne_of_none (digit : IsHexDigit byte value) {mark : UInt8}
    (noDigit : hexValue? mark = none) : byte ≠ mark := by
  rintro rfl
  rw [hexValue?_eq_some_iff.mpr digit] at noDigit
  contradiction

end Byte

namespace Literal

def letters : List (UInt8 × UInt8) :=
  [(0x6E, Byte.lf), (0x72, Byte.cr), (0x74, Byte.tab), (0x30, 0), (Byte.backslash, Byte.backslash),
    (Byte.apostrophe, Byte.apostrophe), (Byte.quote, Byte.quote)]

def Spells (spelled : Bytes) (digits : List Nat) : Prop :=
  List.Forall₂ Byte.IsHexDigit (spelled.filter (· != Byte.underscore)) digits

def numberFrom (number : Nat) (digits : List Nat) : Nat :=
  digits.foldl (fun number digit => number * 16 + digit) number

inductive IsEscape : (text value : Bytes) → Prop
  | letter {name value : UInt8} : (name, value) ∈ letters → IsEscape [name] [value]
  | hex {high low : UInt8} {first second : Nat} : Byte.IsHexDigit high first →
      Byte.IsHexDigit low second → first * 16 + second ≤ 0x7F →
      IsEscape [0x78, high, low] [(first * 16 + second).toUInt8]
  | unicode {spelled : Bytes} {digits : List Nat} : Spells spelled digits →
      spelled.head? ≠ some Byte.underscore → 1 ≤ digits.length → digits.length ≤ 6 →
      Text.isScalar (numberFrom 0 digits) = true →
      IsEscape (0x75 :: Byte.openBrace :: (spelled ++ [Byte.closeBrace]))
        (Text.encode (numberFrom 0 digits))
  | continuation {gap : Bytes} : Bytes.IsGap gap →
      gap.head? = some Byte.lf ∨ gap.head? = some Byte.cr → IsEscape gap []

inductive IsItem : (text value : Bytes) → Prop
  | byte {byte : UInt8} : byte ≠ Byte.quote → byte ≠ Byte.cr → byte ≠ Byte.backslash →
      IsItem [byte] [byte]
  | lineEnd : IsItem [Byte.cr, Byte.lf] [Byte.lf]
  | escape {text value : Bytes} : IsEscape text value → IsItem (Byte.backslash :: text) value

structure Item where
  text : Bytes
  value : Bytes
  isItem : IsItem text value

def Item.Before (item : Item) (rest : Bytes) : Prop := item.value = [] → Bytes.NoGap rest

def texts (items : List Item) : Bytes := items.flatMap Item.text

def values (items : List Item) : Bytes := items.flatMap Item.value

/-- Each item ends where the next one begins, and the last one in front of `rest`. -/
def Separate (rest : Bytes) : List Item → Prop
  | [] => True
  | item :: items => item.Before (texts items ++ rest) ∧ Separate rest items

structure Plain where
  items : List Item
  separate : Separate [Byte.quote] items

def Plain.text (literal : Plain) : Bytes := Byte.quote :: (texts literal.items ++ [Byte.quote])

def Plain.value (literal : Plain) : Bytes := values literal.items

section Spells

variable {byte : UInt8} {digit count number : Nat} {spelled text value rest : Bytes}
  {digits : List Nat}

theorem spells_cons (isDigit : Byte.IsHexDigit byte digit) (spells : Spells spelled digits) :
    Spells (byte :: spelled) (digit :: digits) := by
  have noUnderscore := isDigit.ne_of_none (rfl : Byte.hexValue? Byte.underscore = none)
  rw [Spells, List.filter_cons_of_pos (by simpa using noUnderscore)]
  exact .cons isDigit spells

theorem exists_of_spells_cons (noUnderscore : byte ≠ Byte.underscore)
    (spells : Spells (byte :: spelled) digits) :
    ∃ digit others, Byte.IsHexDigit byte digit ∧ Spells spelled others ∧
      digits = digit :: others := by
  rw [Spells, List.filter_cons_of_pos (by simpa using noUnderscore)] at spells
  exact List.forall₂_cons_left_iff.mp spells

theorem Spells.of_mem (spells : Spells spelled digits) (member : byte ∈ spelled) :
    byte = Byte.underscore ∨ ∃ digit, Byte.IsHexDigit byte digit := by
  induction spelled generalizing digits with
  | nil => contradiction
  | cons first spelled ih =>
      by_cases underscore : first = Byte.underscore
      · subst underscore
        exact (List.mem_cons.mp member).elim .inl (ih spells)
      · obtain ⟨digit, others, isDigit, later, -⟩ := exists_of_spells_cons underscore spells
        rcases List.mem_cons.mp member with rfl | inside
        · exact .inr ⟨digit, isDigit⟩
        · exact ih later inside

theorem unicodeDigits_spelled (spells : Spells spelled digits)
    (leads : count = 0 → spelled.head? ≠ some Byte.underscore) (some : 1 ≤ count + digits.length)
    (few : count + digits.length ≤ 6) (scalar : Text.isScalar (numberFrom number digits) = true)
    (rest : Bytes) :
    unicodeDigits count number (spelled ++ Byte.closeBrace :: rest) =
      .ok (Text.encode (numberFrom number digits), rest) := by
  induction spelled generalizing count number digits with
  | nil =>
      cases spells with
      | nil =>
          rw [List.length_nil] at some
          rw [List.nil_append, unicodeDigits, if_pos rfl, if_neg (by omega)]
          exact if_pos scalar
  | cons byte spelled ih =>
      rw [List.cons_append]
      by_cases underscore : byte = Byte.underscore
      · subst underscore
        have behind : 0 < count := Nat.pos_of_ne_zero fun first => leads first rfl
        rw [unicodeDigits, if_neg (by decide), if_pos ⟨rfl, behind⟩]
        exact ih spells (fun first => by omega) some few scalar
      · obtain ⟨digit, others, isDigit, later, rfl⟩ := exists_of_spells_cons underscore spells
        rw [List.length_cons] at some few
        rw [unicodeDigits, if_neg (isDigit.ne_of_none rfl), if_neg fun both => underscore both.1,
          Byte.hexValue?_eq_some_iff.mpr isDigit]
        simp only
        rw [if_neg (by omega)]
        exact ih later (fun first => by omega) (by omega) (by omega) scalar

theorem exists_digits (few : count ≤ 6)
    (done : unicodeDigits count number text = .ok (value, rest)) :
    ∃ spelled digits, text = spelled ++ Byte.closeBrace :: rest ∧ Spells spelled digits ∧
      (count = 0 → spelled.head? ≠ some Byte.underscore) ∧ 1 ≤ count + digits.length ∧
      count + digits.length ≤ 6 ∧ Text.isScalar (numberFrom number digits) = true ∧
      value = Text.encode (numberFrom number digits) := by
  induction text generalizing count number with
  | nil => simp [unicodeDigits] at done
  | cons byte text ih =>
      rw [unicodeDigits] at done
      by_cases brace : byte = Byte.closeBrace
      · rw [if_pos brace] at done
        split at done
        · contradiction
        · rename_i some
          split at done
          · rename_i scalar
            obtain ⟨rfl, rfl⟩ := Prod.mk.inj (Except.ok.inj done)
            refine ⟨[], [], by rw [brace, List.nil_append], .nil, by simp, ?_, by simpa, scalar,
              rfl⟩
            rw [List.length_nil]
            omega
          · contradiction
      · rw [if_neg brace] at done
        split at done
        · rename_i underscore
          obtain ⟨rfl, behind⟩ := underscore
          obtain ⟨spelled, digits, rfl, spells, -, others⟩ := ih few done
          exact ⟨Byte.underscore :: spelled, digits, rfl, spells, fun first => by omega, others⟩
        · split at done
          · contradiction
          · rename_i digit found
            split at done
            · contradiction
            · have isDigit := Byte.hexValue?_eq_some_iff.mp found
              have noUnderscore := isDigit.ne_of_none (rfl : Byte.hexValue? Byte.underscore = none)
              obtain ⟨spelled, digits, rfl, spells, -, -, bound, scalar, same⟩ :=
                ih (by omega) done
              refine ⟨byte :: spelled, digit :: digits, rfl, spells_cons isDigit spells,
                fun _ => by simpa using noUnderscore, ?_, ?_, scalar, same⟩
              · rw [List.length_cons]
                omega
              · rw [List.length_cons]
                omega

end Spells

section Escapes

variable {text other value otherValue rest otherRest : Bytes}

theorem simpleEscape?_eq_some_iff {name value : UInt8} :
    simpleEscape? name = some value ↔ (name, value) ∈ letters := by
  simp only [simpleEscape?, letters, List.mem_cons, Prod.mk.injEq, List.not_mem_nil, or_false]
  constructor
  · intro known
    repeat' split at known
    all_goals simp_all
  · rintro (⟨rfl, rfl⟩ | ⟨rfl, rfl⟩ | ⟨rfl, rfl⟩ | ⟨rfl, rfl⟩ | ⟨rfl, rfl⟩ | ⟨rfl, rfl⟩ |
      ⟨rfl, rfl⟩)
    all_goals rfl

theorem hexEscape_eq_ok_iff :
    hexEscape text = .ok (value, rest) ↔
      ∃ high low first second, Byte.IsHexDigit high first ∧ Byte.IsHexDigit low second ∧
        first * 16 + second ≤ 0x7F ∧ text = high :: low :: rest ∧
        value = [(first * 16 + second).toUInt8] := by
  constructor
  · intro done
    unfold hexEscape at done
    split at done
    · rename_i high low after
      split at done
      · rename_i first second isHigh isLow
        split at done
        · rename_i ascii
          obtain ⟨rfl, rfl⟩ := Prod.mk.inj (Except.ok.inj done)
          exact ⟨high, low, first, second, Byte.hexValue?_eq_some_iff.mp isHigh,
            Byte.hexValue?_eq_some_iff.mp isLow, by omega, rfl, rfl⟩
        · contradiction
      · contradiction
    · contradiction
  · rintro ⟨high, low, first, second, isHigh, isLow, ascii, rfl, rfl⟩
    simp only [hexEscape, Byte.hexValue?_eq_some_iff.mpr isHigh,
      Byte.hexValue?_eq_some_iff.mpr isLow]
    rw [if_pos (by omega)]

theorem IsEscape.reads (isEscape : IsEscape text value) (before : value = [] → Bytes.NoGap rest) :
    escape (text ++ rest) = .ok (value, rest) := by
  cases isEscape with
  | letter known =>
      simp only [List.singleton_append, escape, simpleEscape?_eq_some_iff.mpr known]
  | @hex high low first second isHigh isLow ascii =>
      have noLetter : simpleEscape? 0x78 = none := by decide
      simp only [List.cons_append, List.nil_append, escape, noLetter, if_true]
      exact hexEscape_eq_ok_iff.mpr ⟨high, low, first, second, isHigh, isLow, ascii, rfl, rfl⟩
  | unicode spells leads some few scalar =>
      have noLetter : simpleEscape? 0x75 = none := by decide
      have noHex : ¬(0x75 : UInt8) = 0x78 := by decide
      simp only [List.cons_append, List.append_assoc, List.nil_append, escape, noLetter,
        if_neg noHex, if_true, unicodeEscape]
      exact unicodeDigits_spelled spells (fun _ => leads) (by omega) (by omega) scalar rest
  | continuation isGap lineEnd =>
      cases text with
      | nil => simp at lineEnd
      | cons first gap =>
          have isEnd : first = Byte.lf ∨ first = Byte.cr := by simpa using lineEnd
          have noEscape : simpleEscape? first = none ∧ first ≠ 0x78 ∧ first ≠ 0x75 := by
            rcases isEnd with rfl | rfl <;> decide
          simp only [List.cons_append, escape, noEscape.1, if_neg noEscape.2.1,
            if_neg noEscape.2.2, if_pos isEnd]
          rw [Bytes.dropWhile_gap (fun byte member => isGap byte (by simp [member])) (before rfl)]

theorem exists_escape (done : escape text = .ok (value, rest)) :
    ∃ used, text = used ++ rest ∧ IsEscape used value ∧ (value = [] → Bytes.NoGap rest) := by
  cases text with
  | nil => simp [escape] at done
  | cons byte text =>
      rw [escape] at done
      split at done
      · rename_i letter known
        obtain ⟨rfl, rfl⟩ := Prod.mk.inj (Except.ok.inj done)
        exact ⟨[byte], rfl, .letter (simpleEscape?_eq_some_iff.mp known), by simp⟩
      · split at done
        · rename_i hex
          obtain ⟨high, low, first, second, isHigh, isLow, ascii, rfl, rfl⟩ :=
            hexEscape_eq_ok_iff.mp done
          exact ⟨[byte, high, low], rfl, hex ▸ .hex isHigh isLow ascii, by simp⟩
        · split at done
          · rename_i unicode
            unfold unicodeEscape at done
            split at done
            · rename_i brace after
              split at done
              · rename_i opens
                obtain ⟨spelled, digits, rfl, spells, leads, some, few, scalar, rfl⟩ :=
                  exists_digits (by omega) done
                refine ⟨byte :: brace :: (spelled ++ [Byte.closeBrace]), by simp, ?_,
                  fun none => absurd none (Text.encode_ne_nil _)⟩
                rw [unicode, opens]
                exact .unicode spells (leads rfl) (by omega) (by omega) scalar
              · contradiction
            · contradiction
          · split at done
            · rename_i lineEnd
              obtain ⟨rfl, rfl⟩ := Prod.mk.inj (Except.ok.inj done)
              have isGap : Bytes.IsGap (byte :: text.takeWhile Byte.isGap) := by
                intro inner member
                rcases List.mem_cons.mp member with rfl | inside
                · rcases lineEnd with rfl | rfl <;> rfl
                · exact Bytes.isGap_takeWhile text inner inside
              exact ⟨byte :: text.takeWhile Byte.isGap, by simp,
                .continuation isGap (by simpa using lineEnd), fun _ => Bytes.noGap_dropWhile text⟩
            · contradiction

end Escapes

section Items

variable {whole seen text rest other value : Bytes} {items : List Item}

theorem Separate.of_quote (separate : Separate (Byte.quote :: rest) items) (other : Bytes) :
    Separate (Byte.quote :: other) items := by
  induction items with
  | nil => trivial
  | cons item items ih =>
      refine ⟨fun none byte head => separate.1 none byte ?_, ih separate.2⟩
      rw [List.head?_append] at head ⊢
      exact head

theorem texts_cons (item : Item) (items : List Item) (rest : Bytes) :
    texts (item :: items) ++ rest = item.text ++ (texts items ++ rest) := by
  rw [texts, List.flatMap_cons, List.append_assoc]
  rfl

theorem plain_item (item : Item) (before : item.Before rest) (whole seen : Bytes) :
    plain whole seen (item.text ++ rest) = plain whole (item.value.reverse ++ seen) rest := by
  obtain ⟨text, value, isItem⟩ := item
  cases isItem with
  | byte noQuote noReturn noBackslash =>
      exact plain_byte whole seen noQuote noReturn noBackslash
  | lineEnd =>
      refine (plain_return whole seen rfl).trans ?_
      exact plain_byte whole seen (by decide) (by decide) (by decide)
  | escape isEscape => exact plain_escape whole seen (isEscape.reads before)

theorem plain_items (separate : Separate rest items) (whole seen : Bytes) :
    plain whole seen (texts items ++ rest) =
      plain whole ((values items).reverse ++ seen) rest := by
  induction items generalizing seen with
  | nil => rfl
  | cons item items ih =>
      rw [texts_cons, plain_item item separate.1, ih separate.2, values, values,
        List.flatMap_cons, List.reverse_append, List.append_assoc]

theorem read_items (separate : Separate rest items) :
    read (Byte.quote :: (texts items ++ rest)) =
      plain (Byte.quote :: (texts items ++ rest)) (values items).reverse rest := by
  rw [read, if_neg (by decide), if_pos rfl, plain_items separate, List.append_nil]

inductive Stuck : Bytes → Fault → Prop
  | endOfInput : Stuck [] .unterminated
  | lastBackslash : Stuck [Byte.backslash] .unterminated
  | bareReturn {rest : Bytes} : rest.head? ≠ some Byte.lf → Stuck (Byte.cr :: rest) .bareReturn
  | escape {byte : UInt8} {rest : Bytes} {fault : Fault} : escape (byte :: rest) = .error fault →
      Stuck (Byte.backslash :: byte :: rest) fault

theorem item_or_stuck (text : Bytes) :
    (∃ item rest, text = Item.text item ++ rest ∧ item.Before rest) ∨
      (∃ rest, text = Byte.quote :: rest) ∨ ∃ fault, Stuck text fault := by
  cases text with
  | nil => exact .inr (.inr ⟨_, .endOfInput⟩)
  | cons byte rest =>
      by_cases quote : byte = Byte.quote
      · exact .inr (.inl ⟨rest, by rw [quote]⟩)
      by_cases isReturn : byte = Byte.cr
      · by_cases feed : rest.head? = some Byte.lf
        · obtain ⟨after, rfl⟩ := List.head?_eq_some_iff.mp feed
          exact .inl ⟨⟨_, _, .lineEnd⟩, after, by rw [isReturn]; rfl, by simp [Item.Before]⟩
        · exact .inr (.inr ⟨.bareReturn, by rw [isReturn]; exact .bareReturn feed⟩)
      by_cases backslash : byte = Byte.backslash
      · subst backslash
        cases escaped : escape rest with
        | ok result =>
            obtain ⟨used, rfl, isEscape, before⟩ := exists_escape escaped
            exact .inl ⟨⟨_, _, .escape isEscape⟩, result.2, rfl, before⟩
        | error fault =>
            cases rest with
            | nil => exact .inr (.inr ⟨_, .lastBackslash⟩)
            | cons byte rest => exact .inr (.inr ⟨fault, .escape escaped⟩)
      · exact .inl ⟨⟨_, _, .byte quote isReturn backslash⟩, rest, rfl, by simp [Item.Before]⟩

theorem unicodeDigits_ne {digits number : Nat} {fault : Fault}
    (other : fault = .expected ∨ fault = .unterminated) :
    unicodeDigits digits number text ≠ .error fault := by
  fun_induction unicodeDigits digits number text <;> rcases other with rfl | rfl <;> simp_all

theorem escape_ne {byte : UInt8} {fault : Fault}
    (other : fault = .expected ∨ fault = .unterminated) : escape (byte :: rest) ≠ .error fault := by
  rw [escape]
  split
  · simp
  · split
    · unfold hexEscape
      repeat' split
      all_goals rcases other with rfl | rfl <;> simp
    · split
      · unfold unicodeEscape
        split
        · split
          · exact unicodeDigits_ne other
          · rcases other with rfl | rfl <;> simp
        · rcases other with rfl | rfl <;> simp
      · split <;> rcases other with rfl | rfl <;> simp

theorem escape_ne_unterminated {byte : UInt8} :
    escape (byte :: rest) ≠ .error .unterminated :=
  escape_ne (.inr rfl)

theorem plain_stuck {fault : Fault} (stuck : Stuck text fault) (whole seen : Bytes) :
    plain whole seen text = .error (fault, if fault = .unterminated then whole else text) := by
  cases stuck with
  | endOfInput => rw [plain, if_pos rfl]
  | lastBackslash => rw [plain_escape_unterminated whole seen rfl, if_pos rfl]
  | bareReturn noFeed =>
      rw [plain, if_neg (by decide), if_pos rfl, if_neg noFeed, if_neg (by decide)]
  | escape failed =>
      have here : fault ≠ .unterminated := fun ended => escape_ne_unterminated (ended ▸ failed)
      rw [plain_escape_fault whole seen failed here, if_neg here]

theorem Item.exists_cons (item : Item) :
    ∃ byte after, item.text = byte :: after ∧ byte ≠ Byte.quote := by
  obtain ⟨text, value, isItem⟩ := item
  cases isItem with
  | byte noQuote _ _ => exact ⟨_, [], rfl, noQuote⟩
  | lineEnd => exact ⟨_, _, rfl, by decide⟩
  | escape _ => exact ⟨_, _, rfl, by decide⟩

theorem Item.text_length_pos (item : Item) : 0 < item.text.length := by
  obtain ⟨byte, after, shape, -⟩ := item.exists_cons
  rw [shape, List.length_cons]
  omega

theorem length_le_texts (items : List Item) : items.length ≤ (texts items).length := by
  induction items with
  | nil => exact Nat.le_refl 0
  | cons item items ih =>
      have some := item.text_length_pos
      rw [texts, List.flatMap_cons, List.length_append, List.length_cons]
      rw [texts] at ih
      omega

theorem exists_items (text : Bytes) :
    ∃ items rest, text = texts items ++ rest ∧ Separate rest items ∧
      ∀ item after, rest = Item.text item ++ after → ¬item.Before after := by
  -- An item takes at least one byte, so the rest is shorter.
  induction length : text.length using Nat.strongRecOn generalizing text with
  | ind length ih =>
      by_cases stands : ∃ item rest, text = Item.text item ++ rest ∧ item.Before rest
      · obtain ⟨item, rest, rfl, before⟩ := stands
        have some := item.text_length_pos
        rw [List.length_append] at length
        obtain ⟨items, last, rfl, separate, ended⟩ := ih rest.length (by omega) rest rfl
        exact ⟨item :: items, last, (texts_cons item items last).symm, ⟨before, separate⟩, ended⟩
      · refine ⟨[], text, rfl, trivial, fun item after shape before => ?_⟩
        exact stands ⟨item, after, shape, before⟩

end Items

section Unique

variable {first second : Item} {items others : List Item} {rest other : Bytes}

/-- One item at most stands at the start of a text. -/
theorem Item.unique (same : first.text ++ rest = second.text ++ other)
    (before : first.Before rest) (otherBefore : second.Before other) :
    first = second ∧ rest = other := by
  obtain ⟨text, value, isItem⟩ := first
  obtain ⟨otherText, otherValue, otherItem⟩ := second
  cases isItem with
  | byte _ noReturn noBackslash =>
      cases otherItem with
      | byte _ _ _ =>
          obtain ⟨rfl, rfl⟩ := List.cons.inj same
          exact ⟨rfl, rfl⟩
      | lineEnd => exact absurd (List.cons.inj same).1 noReturn
      | escape _ => exact absurd (List.cons.inj same).1 noBackslash
  | lineEnd =>
      cases otherItem with
      | byte _ noReturn _ => exact absurd (List.cons.inj same).1.symm noReturn
      | lineEnd => exact ⟨rfl, List.append_cancel_left same⟩
      | escape _ => exact absurd (List.cons.inj same).1 (by decide)
  | @escape inner _ isEscape =>
      cases otherItem with
      | byte _ _ noBackslash => exact absurd (List.cons.inj same).1.symm noBackslash
      | lineEnd => exact absurd (List.cons.inj same).1 (by decide)
      | @escape otherInner _ otherEscape =>
          -- Both escapes are read here, so what is read tells where they end.
          have behind : inner ++ rest = otherInner ++ other := (List.cons.inj same).2
          have read := isEscape.reads before
          rw [behind, otherEscape.reads otherBefore] at read
          obtain ⟨rfl, rfl⟩ := Prod.mk.inj (Except.ok.inj read)
          obtain rfl := List.append_cancel_right behind
          exact ⟨rfl, rfl⟩

theorem items_unique
    (same : texts items ++ Byte.quote :: rest = texts others ++ Byte.quote :: other)
    (separate : Separate (Byte.quote :: rest) items)
    (otherSeparate : Separate (Byte.quote :: other) others) : items = others ∧ rest = other := by
  have noQuote (item : Item) (more : List Item) (tail after : Bytes) :
      texts (item :: more) ++ tail ≠ Byte.quote :: after := by
    obtain ⟨byte, inner, shape, differs⟩ := item.exists_cons
    rw [texts_cons, shape]
    exact fun equal => differs (List.cons.inj equal).1
  induction items generalizing others with
  | nil =>
      cases others with
      | nil => exact ⟨rfl, (List.cons.inj same).2⟩
      | cons item more => exact absurd same.symm (noQuote item more _ _)
  | cons item items ih =>
      cases others with
      | nil => exact absurd same (noQuote item items _ _)
      | cons otherItem others =>
          rw [texts_cons, texts_cons] at same
          obtain ⟨rfl, behind⟩ := Item.unique same separate.1 otherSeparate.1
          obtain ⟨rfl, rfl⟩ := ih behind separate.2 otherSeparate.2
          exact ⟨rfl, rfl⟩

end Unique

namespace Plain

variable {body value rest other : Bytes}

theorem text_append (literal : Plain) (rest : Bytes) :
    literal.text ++ rest = Byte.quote :: (texts literal.items ++ Byte.quote :: rest) := by
  rw [text, List.cons_append, List.append_assoc, List.singleton_append]

theorem reads (literal : Plain) : Reads read literal.text literal.value := by
  intro rest
  rw [text_append, read_items (literal.separate.of_quote rest), plain_quote, List.reverse_reverse,
    value]

theorem exists_plain (done : read (Byte.quote :: body) = .ok (value, rest)) :
    ∃ literal : Plain, Byte.quote :: body = literal.text ++ rest ∧ value = literal.value := by
  obtain ⟨items, last, rfl, separate, ended⟩ := exists_items body
  rw [read_items separate] at done
  rcases item_or_stuck last with ⟨item, after, shape, before⟩ | ⟨after, rfl⟩ | ⟨fault, stuck⟩
  · exact absurd before (ended item after shape)
  · rw [plain_quote, List.reverse_reverse] at done
    obtain ⟨rfl, rfl⟩ := Prod.mk.inj (Except.ok.inj done)
    let literal : Plain := ⟨items, separate.of_quote []⟩
    exact ⟨literal, (literal.text_append after).symm, rfl⟩
  · rw [plain_stuck stuck] at done
    contradiction

theorem unique {first second : Plain} (same : first.text ++ rest = second.text ++ other) :
    first = second := by
  obtain ⟨items, separate⟩ := first
  obtain ⟨others, otherSeparate⟩ := second
  rw [text_append, text_append] at same
  obtain ⟨rfl, -⟩ := items_unique (List.cons.inj same).2 (separate.of_quote rest)
    (otherSeparate.of_quote other)
  rfl

end Plain

section Read

variable {body value : Bytes} {length : Nat}

theorem unquote_quote_iff :
    unquote (Byte.quote :: body) = .ok (value, length) ↔
      ∃ literal : Plain, literal.text <+: Byte.quote :: body ∧ length = literal.text.length ∧
        value = literal.value := by
  constructor
  · intro done
    obtain ⟨used, rest, shape, rfl, reads⟩ := exists_of_unquote done
    have read := reads rest
    rw [← shape] at read
    obtain ⟨literal, whole, same⟩ := Plain.exists_plain read
    obtain rfl := List.append_cancel_right (shape.symm.trans whole)
    exact ⟨literal, ⟨rest, shape.symm⟩, rfl, same⟩
  · rintro ⟨literal, ⟨rest, shape⟩, rfl, rfl⟩
    rw [← shape]
    exact unquote_eq_ok_iff.mpr (literal.reads rest)

/-- Reading goes through items, at most one for each byte, and stops where none stands. -/
theorem exists_reading (body : Bytes) :
    ∃ items rest, body = texts items ++ rest ∧ Separate rest items ∧
      items.length ≤ body.length ∧
      read (Byte.quote :: body) = plain (Byte.quote :: body) (values items).reverse rest ∧
      (∀ item after, rest = Item.text item ++ after → ¬item.Before after) ∧
      (rest.head? = some Byte.quote ↔ ∃ result, unquote (Byte.quote :: body) = .ok result) := by
  obtain ⟨items, rest, rfl, separate, ended⟩ := exists_items body
  have turns := length_le_texts items
  have reaches := read_items separate
  refine ⟨items, rest, rfl, separate, ?_, reaches, ended, ?_⟩
  · rw [List.length_append]
    omega
  · constructor
    · intro closes
      obtain ⟨after, rfl⟩ := List.head?_eq_some_iff.mp closes
      let literal : Plain := ⟨items, separate.of_quote []⟩
      have starts := literal.text_append after
      exact ⟨_, unquote_quote_iff.mpr ⟨literal, ⟨after, starts⟩, rfl, rfl⟩⟩
    · rintro ⟨result, unquoted⟩
      rcases item_or_stuck rest with ⟨item, after, shape, before⟩ | ⟨after, rfl⟩ | ⟨fault, stuck⟩
      · exact absurd before (ended item after shape)
      · rfl
      · rw [unquote, reaches, plain_stuck stuck] at unquoted
        contradiction

end Read

/-- A text that begins with a quote is read exactly if it begins with a plain literal, which is the
only one it begins with. Reading goes through items, at most one for each byte, and stops where none
stands: at the closing quote, or at a fault. -/
theorem unquote_plain (body : Bytes) :
    let text := Byte.quote :: body
    (∀ value length, unquote text = .ok (value, length) ↔
      ∃ literal : Plain, literal.text <+: text ∧ length = literal.text.length ∧
        value = literal.value) ∧
    (∀ first second : Plain, first.text <+: text → second.text <+: text → first = second) ∧
    ((¬∃ literal : Plain, literal.text <+: text) → ∃ error, unquote text = .error error) ∧
    ∃ items rest, body = texts items ++ rest ∧ Separate rest items ∧
      items.length ≤ body.length ∧
      read text = plain text (values items).reverse rest ∧
      (∀ item after, rest = Item.text item ++ after → ¬item.Before after) ∧
      (rest.head? = some Byte.quote ↔ ∃ result, unquote text = .ok result) := by
  intro text
  refine ⟨fun value length => unquote_quote_iff, ?_, ?_, exists_reading body⟩
  · rintro first second ⟨rest, shape⟩ ⟨other, otherShape⟩
    exact Plain.unique (shape.trans otherShape.symm)
  · intro none
    cases unquoted : unquote text with
    | error error => exact ⟨error, rfl⟩
    | ok result =>
        obtain ⟨literal, starts, -⟩ := unquote_quote_iff.mp unquoted
        exact absurd ⟨literal, starts⟩ none

def Plain.mixed : Plain where
  items :=
    [⟨[0x61], [0x61], .byte (by decide) (by decide) (by decide)⟩,
      ⟨_, _, .escape (@IsEscape.hex 0x34 0x31 4 1 (by decide) (by decide) (by decide))⟩,
      ⟨_, _, .escape (@IsEscape.unicode [0x31, Byte.underscore, 0x46, 0x36] [1, 15, 6]
        (.cons (by decide) (.cons (by decide) (.cons (by decide) .nil)))
        (by decide) (by decide) (by decide) (by decide))⟩,
      ⟨_, _, .escape
        (@IsEscape.continuation [Byte.lf, Byte.space] (by decide +kernel) (.inl rfl))⟩,
      ⟨[0x62], [0x62], .byte (by decide) (by decide) (by decide)⟩,
      ⟨_, _, .lineEnd⟩]
  separate := by
    refine ⟨?_, ?_, ?_, fun _ => ?_, ?_, ?_, trivial⟩
    · simp [Item.Before]
    · simp [Item.Before]
    · exact fun none => absurd none (Text.encode_ne_nil (numberFrom 0 [1, 15, 6]))
    · exact Bytes.noGap_cons (by decide : Byte.isGap 0x62 = false) _
    · simp [Item.Before]
    · simp [Item.Before]

theorem unquote_plain_mixed :
    unquote (Byte.quote :: Text.utf8 "a\\x41\\u\x7b1_F6\x7d\\\n b\r\n\" rest") =
      .ok (Text.utf8 "aAǶb\n", 21) :=
  ((unquote_plain _).1 _ _).mpr
    ⟨.mixed, ⟨Text.utf8 " rest", by decide +kernel⟩, by decide +kernel, by decide +kernel⟩

end Literal

end DocPrologue
