import DocPrologue.Format
import DocPrologue.Proofs.Characters
import DocPrologue.Proofs.Inclusions
import DocPrologue.Proofs.Verbatim

/-!
Characters that no Go file may hold behind its start, not even in a comment: NUL and the byte order
mark. Rendering adds none and takes none away, so a generated file holds one exactly if a decoded
line does. Without escapes none gets into a line; an escape can put in any.
-/

namespace DocPrologue

open Text (encode utf8)

def refusedCodes : List Nat := [0, 0xFEFF]

def Scannable (text : Bytes) : Prop := ∀ code ∈ refusedCodes, ¬ encode code <:+: text

instance decidableScannable (text : Bytes) : Decidable (Scannable text) :=
  inferInstanceAs (Decidable (∀ code ∈ refusedCodes, ¬ encode code <:+: text))

def Byte.isPlain (byte : UInt8) : Bool := byte != 0 && byte < 0x80

section Refused

variable {code : Nat} {text line package : Bytes} {texts lines : List Bytes}

theorem apart_of_plain (refused : code ∈ refusedCodes) (plain : text.all Byte.isPlain = true) :
    Bytes.Apart (encode code) text := by
  have outside :
      (refusedCodes.all fun code => (encode code).all fun byte => !Byte.isPlain byte) = true := by
    decide
  refine ⟨Text.encode_ne_nil code, fun byte member isInside => ?_⟩
  have inPlain := List.all_eq_true.mp plain byte isInside
  have notPlain := List.all_eq_true.mp (List.all_eq_true.mp outside code refused) byte member
  rw [inPlain] at notPlain
  contradiction

theorem lf_not_mem (refused : code ∈ refusedCodes) : Byte.lf ∉ encode code := by
  have apart : Bytes.Apart (encode code) [Byte.lf] := apart_of_plain refused (by decide)
  exact apart.of_cons.1

namespace Format

theorem continuesIdentifier_of_isIdentifier (isName : isIdentifier package = true) :
    ∀ glyph ∈ Text.glyphs package, continuesIdentifier glyph = true := by
  unfold isIdentifier at isName
  split at isName
  · contradiction
  · rename_i first rest split
    simp only [Bool.and_eq_true, List.all_eq_true] at isName
    rw [split]
    intro glyph member
    rcases List.mem_cons.mp member with rfl | later
    · simp [continuesIdentifier, isName.1.1]
    · exact isName.1.2 glyph later

theorem not_infix_identifier (refused : code ∈ refusedCodes)
    (isName : isIdentifier package = true) : ¬ encode code <:+: package := by
  have scalar : ∀ code ∈ refusedCodes, Text.isScalar code = true := by decide
  have outside : ∀ code ∈ refusedCodes, continuesIdentifier (.char code) = false := by
    decide +kernel
  intro stands
  have inside := continuesIdentifier_of_isIdentifier isName _
    (Text.char_mem_glyphs (scalar code refused) stands)
  rw [outside code refused] at inside
  exact Bool.false_ne_true inside

theorem commentLine_eq_append (line : Bytes) :
    ∃ mark, (mark = [Byte.slash, Byte.slash] ∨ mark = [Byte.slash, Byte.slash, Byte.space]) ∧
      commentLine line = mark ++ Bytes.trimRight Byte.isSpaceOrTab line := by
  unfold commentLine
  split
  · rename_i empty
    exact ⟨_, .inl rfl, by rw [empty]; rfl⟩
  · rename_i first rest shape
    rw [shape]
    split
    · exact ⟨_, .inl rfl, rfl⟩
    · exact ⟨_, .inr rfl, rfl⟩

theorem infix_commentLine (refused : code ∈ refusedCodes) :
    encode code <:+: commentLine line ↔ encode code <:+: line := by
  obtain ⟨dropped, split, blank⟩ := Bytes.trimRight_split Byte.isSpaceOrTab line
  have gap : dropped.all Byte.isPlain = true := by
    refine List.all_eq_true.mpr fun byte member => ?_
    rcases Byte.isSpaceOrTab_iff.mp (blank byte member) with rfl | rfl <;> decide
  have trimmed : encode code <:+: line ↔
      encode code <:+: Bytes.trimRight Byte.isSpaceOrTab line := by
    conv => lhs; rw [split]
    exact Bytes.infix_append_left (apart_of_plain refused gap)
  obtain ⟨mark, isMark, shape⟩ := commentLine_eq_append line
  have plain : mark.all Byte.isPlain = true := by
    rcases isMark with rfl | rfl <;> decide
  rw [trimmed, shape]
  exact Bytes.infix_append_right (apart_of_plain refused plain)

theorem infix_commentLines (refused : code ∈ refusedCodes) :
    (∃ line ∈ commentLines text, encode code <:+: line) ↔ encode code <:+: text := by
  have filled := Text.encode_ne_nil code
  unfold commentLines
  split
  · rename_i empty
    rw [List.isEmpty_iff.mp empty]
    simpa using filled
  · rw [Bytes.infix_split filled (lf_not_mem refused)]
    constructor
    · rintro ⟨_, member, stands⟩
      obtain ⟨part, isPart, rfl⟩ := List.mem_map.mp member
      exact ⟨part, isPart, (infix_commentLine refused).mp stands⟩
    · rintro ⟨part, isPart, stands⟩
      exact ⟨_, List.mem_map_of_mem isPart, (infix_commentLine refused).mpr stands⟩

theorem infix_goFile {data : Bytes} (refused : code ∈ refusedCodes)
    (rendered : goFile package text = .ok data) :
    encode code <:+: data ↔ encode code <:+: text := by
  unfold goFile at rendered
  split at rendered
  · rename_i isName
    cases rendered
    have front : Bytes.Apart (encode code) (header ++ [Byte.lf, Byte.lf]) :=
      apart_of_plain refused (by decide +kernel)
    have clause : Bytes.Apart (encode code) (utf8 "package ") :=
      apart_of_plain refused (by decide +kernel)
    have ending : Bytes.Apart (encode code) [Byte.lf] := apart_of_plain refused (by decide)
    rw [Bytes.infix_append_left ending, List.append_assoc, List.append_assoc,
      Bytes.infix_append_right front, Bytes.infix_ended (lf_not_mem refused),
      infix_commentLines refused, Bytes.infix_append_right clause]
    exact or_iff_left (not_infix_identifier refused isName)
  · contradiction

end Format

namespace Inclusion

variable {read : Reader} {paths : List Bytes}

def Shows (read : Reader) (paths : List Bytes) (line : Bytes) : Prop :=
  ∃ path ∈ paths, ∃ source block, read path = .ok source ∧
    Block.extract path source = .ok block ∧ line ∈ block

theorem infix_joinTexts (refused : code ∈ refusedCodes) :
    encode code <:+: joinTexts texts ↔ ∃ text ∈ texts, encode code <:+: text := by
  have filled := Text.encode_ne_nil code
  rw [joinTexts, Bytes.infix_join (by simp) (apart_of_plain refused (by decide))]
  constructor
  · rintro ⟨text, member, stands⟩
    exact ⟨text, (List.mem_filter.mp member).1, stands⟩
  · rintro ⟨text, member, stands⟩
    refine ⟨text, List.mem_filter.mpr ⟨member, ?_⟩, stands⟩
    cases text with
    | nil => exact absurd (List.eq_nil_of_infix_nil stands) filled
    | cons byte text => rfl

theorem infix_collect (refused : code ∈ refusedCodes) (included : collect read paths = .ok text) :
    encode code <:+: text ↔ ∃ line, Shows read paths line ∧ encode code <:+: line := by
  obtain ⟨-, texts, readable, rfl⟩ := collect_eq_ok_iff.mp included
  have feed : Bytes.Apart (encode code) [Byte.lf] := apart_of_plain refused (by decide)
  rw [infix_joinTexts refused]
  constructor
  · rintro ⟨text, member, stands⟩
    obtain ⟨path, isPath, decoded⟩ := (mem_texts_iff readable).mp member
    obtain ⟨source, block, found, extracted, rfl⟩ := textOf_eq_ok_iff.mp decoded
    obtain ⟨line, isLine, stands⟩ := (Bytes.infix_join (by simp) feed).mp stands
    exact ⟨line, ⟨path, isPath, source, block, found, extracted, isLine⟩, stands⟩
  · rintro ⟨line, ⟨path, isPath, source, block, found, extracted, isLine⟩, stands⟩
    refine ⟨block.text, (mem_texts_iff readable).mpr ⟨path, isPath, ?_⟩, ?_⟩
    · exact textOf_eq_ok_iff.mpr ⟨source, block, found, extracted, rfl⟩
    · exact (Bytes.infix_join (by simp) feed).mpr ⟨line, isLine, stands⟩

end Inclusion

namespace Format

variable {read : Inclusion.Reader} {paths : List Bytes} {data : Bytes}

theorem scannable_iff_lines (included : Inclusion.collect read paths = .ok text)
    (rendered : goFile package text = .ok data) :
    Scannable data ↔ ∀ line, Inclusion.Shows read paths line → Scannable line := by
  constructor
  · intro clean line shown code refused stands
    refine clean code refused ((infix_goFile refused rendered).mpr ?_)
    exact (Inclusion.infix_collect refused included).mpr ⟨line, shown, stands⟩
  · intro clean code refused stands
    have inText := (infix_goFile refused rendered).mp stands
    obtain ⟨line, shown, stands⟩ := (Inclusion.infix_collect refused included).mp inText
    exact clean line shown code refused stands

/-- A generated Go file is free of refused characters exactly if all decoded lines are. They are so
if the sources have neither such characters nor escapes behind their preambles. -/
theorem scannable_go (included : Inclusion.collect read paths = .ok text)
    (rendered : render .go package text = .ok data) :
    (Scannable data ↔ ∀ line, Inclusion.Shows read paths line → Scannable line) ∧
      ((∀ path ∈ paths, ∀ source, read path = .ok source →
        Byte.backslash ∉ Bytes.withoutPreamble source ∧
          Scannable (Bytes.withoutPreamble source)) → Scannable data) := by
  have decoded := scannable_iff_lines included rendered
  refine ⟨decoded, fun plain => decoded.mpr ?_⟩
  rintro line ⟨path, isPath, source, block, found, extracted, isLine⟩ code refused stands
  obtain ⟨noEscape, clean⟩ := plain path isPath source found
  have piece := Block.piece_of_extract noEscape extracted line isLine
  exact clean code refused (stands.trans piece)

end Format

end Refused

namespace RefusedCharacters

def package : Bytes := utf8 "fruit"

def marked : Bytes := Cursor.byteOrderMark ++ utf8 "//! A\n"

def escaped : Bytes := utf8 "#![doc = \"a\\0\\u\x7bFEFF\x7d\"]\n"

def markedFile : Bytes := Format.header ++ utf8 "\n\n// A\npackage fruit\n"

def escapedFile : Bytes :=
  Format.header ++ utf8 "\n\n// a\x00" ++ Cursor.byteOrderMark ++ utf8 "\npackage fruit\n"

theorem scannable_go_marked :
    Inclusion.collect (fun _ => .ok marked) [utf8 "lib.rs"] = .ok (utf8 "A") ∧
      Format.render .go package (utf8 "A") = .ok markedFile ∧ Scannable markedFile ∧
      ∀ line, Inclusion.Shows (fun _ => .ok marked) [utf8 "lib.rs"] line → Scannable line := by
  have included : Inclusion.collect (fun _ => .ok marked) [utf8 "lib.rs"] = .ok (utf8 "A") := by
    decide +kernel
  have rendered : Format.render .go package (utf8 "A") = .ok markedFile := by
    decide +kernel
  obtain ⟨decoded, plain⟩ := Format.scannable_go included rendered
  have clean : Scannable markedFile := by
    apply plain
    intro path _ source found
    cases found
    decide +kernel
  exact ⟨included, rendered, clean, decoded.mp clean⟩

/-- The source is valid UTF-8, and the file that is generated from it is no Go file. -/
theorem not_scannable_escaped :
    Text.isValidUtf8 escaped = true ∧
      (∃ text, Inclusion.collect (fun _ => .ok escaped) [utf8 "lib.rs"] = .ok text ∧
        Format.render .go package text = .ok escapedFile) ∧
      (0 : UInt8) ∈ escapedFile ∧ Cursor.byteOrderMark <:+: escapedFile ∧
      ¬ Scannable escapedFile := by
  refine ⟨by decide +kernel, ⟨utf8 "a\x00" ++ Cursor.byteOrderMark, ?_, ?_⟩, ?_⟩ <;>
    decide +kernel

end RefusedCharacters

end DocPrologue
