import Mathlib.Data.List.Permutation
import DocPrologue.Proofs.GoFiles
import DocPrologue.Proofs.PlainLiterals
import DocPrologue.Proofs.ValidUtf8

/-!
Valid UTF-8 from sources to outputs. Whatever is read cuts its text at ASCII bytes and takes only
such bytes out, and an escape puts in an ASCII byte or a whole character. So valid sources have
valid prologues, and joining and rendering keep them valid.
-/

namespace DocPrologue

open Text (IsUtf8 Ascii utf8)

namespace Byte

variable {byte : UInt8} {value : Nat}

theorem IsHexDigit.ascii (digit : IsHexDigit byte value) : byte < 0x80 := by
  have limit : (0x80 : UInt8).toNat = 0x80 := rfl
  unfold IsHexDigit at digit
  rw [UInt8.lt_iff_toNat_lt]
  omega

theorem isGap_ascii (isGap : isGap byte = true) : byte < 0x80 := by
  rcases isGap_iff.mp isGap with rfl | rfl | rfl | rfl <;> decide

theorem isSpaceOrTab_ascii (isBlank : isSpaceOrTab byte = true) : byte < 0x80 := by
  rcases isSpaceOrTab_iff.mp isBlank with rfl | rfl <;> decide

end Byte

namespace Literal

variable {whole seen spelled text value rest : Bytes} {digits : List Nat}

theorem Spells.ascii (spells : Spells spelled digits) : Ascii spelled := by
  intro byte member
  rcases spells.of_mem member with rfl | ⟨digit, isDigit⟩
  · decide
  · exact isDigit.ascii

theorem IsEscape.ascii (isEscape : IsEscape text value) : Ascii text := by
  cases isEscape with
  | letter known =>
      have all : Ascii (letters.map Prod.fst) := by decide
      have here := all _ (List.mem_map_of_mem known)
      simpa [Ascii] using here
  | hex isHigh isLow _ => simp [Ascii, isHigh.ascii, isLow.ascii]
  | unicode spells _ _ _ _ =>
      have digits := spells.ascii
      intro byte member
      simp only [List.mem_cons, List.mem_append, List.not_mem_nil, or_false] at member
      rcases member with rfl | rfl | inside | rfl
      · decide
      · decide
      · exact digits byte inside
      · decide
  | continuation isGap _ => exact fun byte member => Byte.isGap_ascii (isGap byte member)

theorem IsEscape.isUtf8 (isEscape : IsEscape text value) : IsUtf8 value := by
  cases isEscape with
  | letter known =>
      have all : Ascii (letters.map Prod.snd) := by decide
      exact Text.isUtf8_byte (all _ (List.mem_map_of_mem known))
  | @hex _ _ first second _ _ small =>
      have same : (first * 16 + second).toUInt8.toNat = first * 16 + second :=
        Text.toNat_byte (by omega)
      have limit : (0x80 : UInt8).toNat = 0x80 := rfl
      exact Text.isUtf8_byte (UInt8.lt_iff_toNat_lt.mpr (by omega))
  | unicode _ _ _ _ scalar => exact Text.isUtf8_encode scalar
  | continuation _ _ => exact .nil

/-- What was read so far and what is still to be read are valid one behind the other: a character
may have been read in part. -/
theorem isUtf8_plain (valid : IsUtf8 (seen.reverse ++ text))
    (done : plain whole seen text = .ok (value, rest)) : IsUtf8 value := by
  fun_induction plain whole seen text with
  | case1 => contradiction
  | case2 seen rest =>
      obtain ⟨rfl, rfl⟩ := Prod.mk.inj (Except.ok.inj done)
      exact ((Text.isUtf8_around_iff (by decide)).mp valid).1
  | case3 _ _ _ _ ih => exact ih (valid.remove (by decide)) done
  | case4 => contradiction
  | case5 => contradiction
  | case6 => contradiction
  | case7 seen rest piece after escaped _ _ ih =>
      obtain ⟨used, rfl, isEscape, -⟩ := exists_escape escaped
      obtain ⟨front, back⟩ := (Text.isUtf8_around_iff (by decide)).mp valid
      have behind := (Text.isUtf8_behind_iff isEscape.ascii).mp back
      refine ih ?_ done
      rw [List.reverse_append, List.reverse_reverse]
      exact (front.append isEscape.isUtf8).append behind
  | case8 seen byte rest _ _ _ ih =>
      refine ih ?_ done
      rwa [List.reverse_cons, List.append_assoc, List.singleton_append]

theorem isUtf8_raw (valid : IsUtf8 text) (done : raw whole text = .ok (value, rest)) :
    IsUtf8 value := by
  obtain ⟨hashes, content, allHash, rfl, rfl, -⟩ := raw_split done
  have marks : Ascii hashes := fun byte member => allHash byte member ▸ (by decide)
  rw [Text.isUtf8_behind_iff marks, Text.isUtf8_cons_iff (by decide), closing,
    List.cons_append, Text.isUtf8_around_iff (by decide)] at valid
  exact @Bytes.isUtf8_dropReturns [] content valid.1

theorem isUtf8_read (valid : IsUtf8 text) (done : read text = .ok (value, rest)) :
    IsUtf8 value := by
  unfold read at done
  split at done
  · contradiction
  · rename_i byte after
    split at done
    · rename_i isRaw
      rw [isRaw, Text.isUtf8_cons_iff (by decide)] at valid
      exact isUtf8_raw valid done
    · split at done
      · rename_i quote
        rw [quote, Text.isUtf8_cons_iff (by decide)] at valid
        exact @isUtf8_plain _ [] _ _ _ valid done
      · contradiction

theorem Begins.starts (begins : Begins text) : Text.Starts text := by
  cases begins with
  | plain rest => exact Text.starts_cons (by decide) _
  | raw hashes rest => exact Text.starts_cons (by decide) _

end Literal

theorem Comment.keptByDecoding_isUtf8 : KeptByDecoding IsUtf8 where
  empty := .nil
  leading := (Bytes.isUtf8_dropLeading (by decide) _).mpr
  trailing := by
    rintro byte text (rfl | rfl)
    · exact (Bytes.isUtf8_dropTrailing (by decide) text).mpr
    · exact (Bytes.isUtf8_dropTrailing (by decide) text).mpr
  star := by
    intro line rest shape valid
    rw [← Bytes.isUtf8_dropWhile (fun _ => Byte.isSpaceOrTab_ascii), shape] at valid
    exact (Text.isUtf8_cons_iff (by decide)).mp valid

namespace Cursor

variable {cursor after : Cursor} {region : Region} {line : Bytes}

theorem Passage.starts (passage : Passage cursor region after) (member : line ∈ region.lines) :
    Text.Starts cursor.rest := by
  cases passage with
  | endOfInput _ => contradiction
  | code _ => contradiction
  | otherAttribute _ _ => contradiction
  | blank _ => contradiction
  | lineComment form =>
      obtain ⟨rest, shape⟩ := Bytes.startsWith_iff.mp ((peek_eq_lineComment_iff cursor).mp form)
      rw [shape]
      exact Text.starts_cons (by decide) _
  | blockComment shape _ =>
      rw [shape]
      exact Text.starts_cons (by decide) _
  | docAttribute opened _ _ =>
      obtain ⟨gap, -, shape⟩ := Attribute.body?_eq_some_iff.mp opened
      rw [shape]
      exact Text.starts_cons (by decide) _

theorem Passage.isUtf8 (passage : Passage cursor region after) (valid : IsUtf8 cursor.rest)
    (member : line ∈ region.lines) : IsUtf8 line := by
  cases passage with
  | endOfInput _ => contradiction
  | code _ => contradiction
  | otherAttribute _ _ => contradiction
  | blank _ => contradiction
  | lineComment form =>
      have marked := (peek_eq_lineComment_iff cursor).mp form
      rw [← Bytes.startsWith_line _ _ (by decide) (by decide)] at marked
      obtain ⟨text, shape⟩ := Bytes.startsWith_iff.mp marked
      have first := Bytes.isUtf8_line valid
      rw [shape, Text.isUtf8_behind_iff (by decide)] at first
      rw [List.mem_singleton.mp member, shape, List.drop_left]
      exact (Bytes.isUtf8_dropLeading (by decide) text).mpr first
  | @blockComment body tail shape _ =>
      rw [shape, Text.isUtf8_behind_iff (by decide), Text.isUtf8_around_iff (by decide)] at valid
      exact Comment.keptByDecoding_isUtf8.blockLines
        ((Bytes.isUtf8_split_iff (by decide)).mpr valid.1) line member
  | docAttribute opened literal read =>
      obtain ⟨begins, front, -, shape⟩ := Attribute.bind_literal?_eq_some_iff.mp
        (Option.bind_eq_some_iff.mpr ⟨_, opened, literal⟩)
      rw [shape, Text.isUtf8_append_iff begins.starts] at valid
      obtain ⟨gap, -, done⟩ := Attribute.read_eq_ok_iff.mp read
      exact (Bytes.isUtf8_split_iff (by decide)).mpr (Literal.isUtf8_read valid.2 done) line member

end Cursor

theorem Bytes.isUtf8_withoutPreamble {source : Bytes} (valid : IsUtf8 source) :
    IsUtf8 (withoutPreamble source) := by
  have text : IsUtf8 ((after? Cursor.byteOrderMark source).getD source) := by
    cases marked : after? Cursor.byteOrderMark source with
    | none => exact valid
    | some rest =>
        have mark : Cursor.byteOrderMark = Text.encode 0xFEFF := by decide
        rw [after?_eq_some_iff.mp marked, mark, Text.isUtf8_char_iff (by decide)] at valid
        exact valid
  unfold withoutPreamble
  dsimp only
  split
  · exact isUtf8_afterLine text
  · exact text

theorem Block.isUtf8_of_extract {name source : Bytes} {block : Block} (valid : IsUtf8 source)
    (done : extract name source = .ok block) : ∀ line ∈ block, IsUtf8 line := by
  have behind := Bytes.isUtf8_withoutPreamble valid
  have every : EveryLine (Bytes.withoutPreamble source) IsUtf8 := by
    refine ⟨.nil, ?_⟩
    intro cursor after region within passage line member
    exact passage.isUtf8 (behind.suffix within (passage.starts member)) member
  exact every.extract done

namespace Inclusion

variable {read : Reader} {paths texts : List Bytes} {text : Bytes}

theorem isUtf8_joinTexts_iff : IsUtf8 (joinTexts texts) ↔ ∀ text ∈ texts, IsUtf8 text := by
  rw [joinTexts, Bytes.isUtf8_join_iff (by simp) (by decide)]
  constructor
  · intro valid text member
    cases text with
    | nil => exact .nil
    | cons byte text => exact valid _ (List.mem_filter.mpr ⟨member, rfl⟩)
  · exact fun valid text member => valid text (List.mem_filter.mp member).1

theorem isUtf8_of_collect
    (valid : ∀ path ∈ paths, ∀ source, read path = .ok source → IsUtf8 source)
    (included : collect read paths = .ok text) : IsUtf8 text := by
  obtain ⟨-, texts, readable, rfl⟩ := collect_eq_ok_iff.mp included
  refine isUtf8_joinTexts_iff.mpr fun text member => ?_
  obtain ⟨path, isPath, decoded⟩ := (mem_texts_iff readable).mp member
  obtain ⟨source, block, found, extracted, rfl⟩ := textOf_eq_ok_iff.mp decoded
  exact (Bytes.isUtf8_join_iff (by simp) (by decide)).mpr
    (Block.isUtf8_of_extract (valid path isPath source found) extracted)

end Inclusion

theorem Bundle.isUtf8_of_read {bundle : Bundle} {path source : Bytes}
    (valid : ∀ file ∈ bundle, IsUtf8 file.2) (found : bundle.read path = .ok source) :
    IsUtf8 source := by
  unfold read at found
  split at found
  · split at found
    · rename_i file first
      cases found
      exact valid file (List.mem_reverse.mp (List.mem_of_find?_eq_some first))
    · split at found <;> contradiction
  · contradiction

namespace Format

variable {format : Format} {line package text data : Bytes}

theorem isUtf8_of_isIdentifier (isName : isIdentifier package = true) : IsUtf8 package := by
  rw [← Text.isValidUtf8_iff, Text.isValidUtf8, List.all_eq_true]
  intro glyph member
  have continues := continuesIdentifier_of_isIdentifier isName glyph member
  cases glyph with
  | char code => rfl
  | stray byte => contradiction

theorem isUtf8_commentLine_iff : IsUtf8 (commentLine line) ↔ IsUtf8 line := by
  obtain ⟨mark, isMark, shape⟩ := commentLine_eq_append line
  have ascii : Ascii mark := by
    rcases isMark with rfl | rfl <;> decide
  rw [shape, Text.isUtf8_behind_iff ascii, Bytes.isUtf8_trimRight fun _ => Byte.isSpaceOrTab_ascii]

theorem isUtf8_commentLines_iff : (∀ line ∈ commentLines text, IsUtf8 line) ↔ IsUtf8 text := by
  unfold commentLines
  split
  · rename_i empty
    rw [List.isEmpty_iff.mp empty]
    simp [IsUtf8.nil]
  · rw [List.forall_mem_map, ← Bytes.isUtf8_split_iff (by decide : Byte.lf < 0x80)]
    exact forall₂_congr fun _ _ => isUtf8_commentLine_iff

theorem isUtf8_goFile_iff (rendered : goFile package text = .ok data) :
    IsUtf8 data ↔ IsUtf8 text := by
  unfold goFile at rendered
  split at rendered
  · rename_i isName
    cases rendered
    have front : Ascii (header ++ [Byte.lf, Byte.lf]) := by decide +kernel
    have clause : Text.Starts (utf8 "package " ++ (package ++ [Byte.lf])) :=
      Text.starts_cons (by decide) _
    have ending : IsUtf8 (utf8 "package " ++ (package ++ [Byte.lf])) :=
      (Text.isUtf8_utf8 _).append
        ((isUtf8_of_isIdentifier isName).append (Text.isUtf8_byte (by decide)))
    rw [List.append_assoc, List.append_assoc, List.append_assoc, Text.isUtf8_behind_iff front,
      Text.isUtf8_append_iff clause, and_iff_left ending, Bytes.isUtf8_ended_iff (by decide),
      isUtf8_commentLines_iff]
  · contradiction

theorem isUtf8_render_iff (rendered : render format package text = .ok data) :
    IsUtf8 data ↔ IsUtf8 text := by
  cases format with
  | raw => rw [← Except.ok.inj rendered]
  | go => exact isUtf8_goFile_iff rendered

end Format

/-- Valid sources have valid prologues. Including valid files, joining valid texts and rendering a
valid text in any format give valid texts, whatever the package is called. -/
theorem isUtf8_of_sources :
    (∀ name source block, IsUtf8 source → Block.extract name source = .ok block →
      ∀ line ∈ block, IsUtf8 line) ∧
    (∀ (read : Inclusion.Reader) paths text,
      (∀ path ∈ paths, ∀ source, read path = .ok source → IsUtf8 source) →
      Inclusion.collect read paths = .ok text → IsUtf8 text) ∧
    (∀ (tree : FileTree) directory paths text,
      (∀ path ∈ paths, ∀ source, tree.read (Path.resolve directory path) = .ok source →
        IsUtf8 source) →
      tree.collect directory paths = .ok text → IsUtf8 text) ∧
    (∀ (bundle : Bundle) paths text, (∀ file ∈ bundle, IsUtf8 file.2) →
      bundle.collect paths = .ok text → IsUtf8 text) ∧
    (∀ texts, (∀ text ∈ texts, IsUtf8 text) → IsUtf8 (Inclusion.joinTexts texts)) ∧
    ∀ name package text data, IsUtf8 text → Format.renderNamed name package text = .ok data →
      IsUtf8 data := by
  refine ⟨fun name source block => Block.isUtf8_of_extract,
    fun read paths text => Inclusion.isUtf8_of_collect, ?_, ?_,
    fun texts => Inclusion.isUtf8_joinTexts_iff.mpr, ?_⟩
  · intro tree directory paths text valid included
    exact Inclusion.isUtf8_of_collect (List.forall_mem_map.mpr valid) included
  · intro bundle paths text valid included
    exact Inclusion.isUtf8_of_collect (fun _ _ _ => Bundle.isUtf8_of_read valid) included
  · intro name package text data valid rendered
    unfold Format.renderNamed at rendered
    split at rendered
    · exact (Format.isUtf8_render_iff rendered).mpr valid
    · contradiction

namespace Multibyte

def commented : Bytes := utf8 "//! Größe\n"

def escaped : Bytes := utf8 "#![doc = \"é\\u\x7b1F34E\x7d\\x41\"]\n"

def bundle : Bundle := [(utf8 "a", commented), (utf8 "b", escaped)]

def tree : FileTree :=
  ⟨[([utf8 "a"], .file commented 0), ([utf8 "b"], .file escaped 0)], []⟩

def joined : Bytes := utf8 "Größe\n\né🍎A"

def names : List Bytes := [utf8 "a", utf8 "b"]

theorem isUtf8_of_sources_multibyte :
    (Block.extract [] escaped = .ok [utf8 "é🍎A"] ∧ IsUtf8 (utf8 "é🍎A")) ∧
      (Inclusion.collect (fun _ => .ok escaped) names = .ok (utf8 "é🍎A\n\né🍎A") ∧
        IsUtf8 (utf8 "é🍎A\n\né🍎A")) ∧
      (tree.collect [] names = .ok joined ∧ IsUtf8 joined) ∧
      (bundle.collect names = .ok joined ∧ IsUtf8 joined) ∧
      IsUtf8 (Inclusion.joinTexts [utf8 "Größe", [], utf8 "é🍎A"]) ∧
      ∃ data, Format.renderNamed (utf8 "go") (utf8 "größe") joined = .ok data ∧ IsUtf8 data := by
  obtain ⟨extracts, collects, walks, bundles, joins, renders⟩ := isUtf8_of_sources
  have first : IsUtf8 commented := Text.isUtf8_utf8 _
  have second : IsUtf8 escaped := Text.isUtf8_utf8 _
  have extracted : Block.extract [] escaped = .ok [utf8 "é🍎A"] := by decide +kernel
  have twice : Inclusion.collect (fun _ => .ok escaped) names = .ok (utf8 "é🍎A\n\né🍎A") := by
    decide +kernel
  have bundled : bundle.collect names = .ok joined := by decide +kernel
  have valid : IsUtf8 joined := by
    refine bundles bundle names joined (List.forall_mem_cons.mpr ⟨first, ?_⟩) bundled
    exact List.forall_mem_singleton.mpr second
  have reads : tree.read (utf8 "a") = .ok commented ∧ tree.read (utf8 "b") = .ok escaped :=
    ⟨by cbv, by cbv⟩
  have held : bundle.read (utf8 "a") = .ok commented ∧ bundle.read (utf8 "b") = .ok escaped := by
    decide +kernel
  have walked : tree.collect [] names = .ok joined := by
    have same : ∀ path ∈ names, tree.read path = bundle.read path :=
      List.forall_mem_cons.mpr ⟨reads.1.trans held.1.symm,
        List.forall_mem_singleton.mpr (reads.2.trans held.2.symm)⟩
    exact (Inclusion.collect_congr same).trans bundled
  refine ⟨⟨extracted, ?_⟩, ⟨twice, ?_⟩, ⟨walked, ?_⟩, ⟨bundled, valid⟩, joins _ ?_, ?_⟩
  · exact extracts _ _ _ second extracted _ (List.mem_singleton_self _)
  · refine collects _ _ _ (fun _ _ source found => ?_) twice
    exact Except.ok.inj found ▸ second
  · refine walks tree [] names joined (List.forall_mem_cons.mpr ⟨?_, ?_⟩) walked
    · intro source found
      exact Except.ok.inj (reads.1.symm.trans found) ▸ first
    · refine List.forall_mem_singleton.mpr fun source found => ?_
      exact Except.ok.inj (reads.2.symm.trans found) ▸ second
  · simp only [List.forall_mem_cons]
    exact ⟨Text.isUtf8_utf8 _, .nil, Text.isUtf8_utf8 _, by simp⟩
  · obtain ⟨data, rendered⟩ : ∃ data,
        Format.renderNamed (utf8 "go") (utf8 "größe") joined = .ok data :=
      ⟨_, if_pos (by decide +kernel)⟩
    exact ⟨data, rendered, renders _ _ _ _ valid rendered⟩

end Multibyte

end DocPrologue
