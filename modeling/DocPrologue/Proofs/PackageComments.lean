import Mathlib.Data.List.Forall2
import DocPrologue.Format
import DocPrologue.Proofs.Lines
import DocPrologue.Proofs.Paths

/-!
Package comments. In a Go file each line of a text is a comment line of its own, behind whose mark
stands nothing or a space or a tab. Taking the marks away gives the lines back, without the spaces
and tabs at their ends, and that is all that two texts with the same file can differ in.
-/

namespace DocPrologue

namespace Bytes

variable {separator : UInt8} {line other kept text : Bytes} {lines others : List Bytes}

theorem length_split (separator : UInt8) (text : Bytes) :
    (split separator text).length = text.count separator + 1 := by
  induction text with
  | nil => rfl
  | cons byte text ih =>
      rw [split_cons]
      by_cases same : byte = separator
      · rw [if_pos same, same, List.length_cons, ih, List.count_cons_self]
      · rw [if_neg same, List.count_cons_of_ne same, ← ih]
        cases parts : split separator text with
        | nil => exact absurd parts (split_ne_nil separator text)
        | cons part parts => rfl

theorem split_ended (inside : ∀ line ∈ lines, separator ∉ line) (rest : Bytes) :
    split separator ((lines.flatMap fun line => line ++ [separator]) ++ rest) =
      lines ++ split separator rest := by
  induction lines with
  | nil => rfl
  | cons line lines ih =>
      rw [List.flatMap_cons, List.append_assoc, List.append_assoc, List.singleton_append,
        split_append _ _ (inside line (by simp)),
        ih fun other member => inside other (by simp [member])]
      rfl

theorem ended_injective (inside : ∀ line ∈ lines, separator ∉ line)
    (otherInside : ∀ line ∈ others, separator ∉ line)
    (same : (lines.flatMap fun line => line ++ [separator]) =
      others.flatMap fun line => line ++ [separator]) : lines = others := by
  have parts := congrArg (fun text => split separator (text ++ [])) same
  simp only [split_ended inside, split_ended otherInside] at parts
  exact List.append_cancel_right parts

structure Trimmed (line kept : Bytes) : Prop where
  split : ∃ gap, line = kept ++ gap ∧ ∀ byte ∈ gap, byte = Byte.space ∨ byte = Byte.tab
  ending : ∀ byte, kept.getLast? = some byte → byte ≠ Byte.space ∧ byte ≠ Byte.tab

def AlikeInFront (line other : Bytes) : Prop :=
  ∃ kept gap otherGap, line = kept ++ gap ∧ other = kept ++ otherGap ∧
    ∀ byte ∈ gap ++ otherGap, byte = Byte.space ∨ byte = Byte.tab

theorem trimRight_append {gap : Bytes} (isGap : ∀ byte ∈ gap, byte = Byte.space ∨ byte = Byte.tab)
    (kept : Bytes) :
    trimRight Byte.isSpaceOrTab (kept ++ gap) = trimRight Byte.isSpaceOrTab kept := by
  rw [trimRight, trimRight, List.reverse_append, List.dropWhile_append_of_pos]
  intro byte member
  exact Byte.isSpaceOrTab_iff.mpr (isGap byte (List.mem_reverse.mp member))

theorem trimmed_trimRight (line : Bytes) : Trimmed line (trimRight Byte.isSpaceOrTab line) := by
  obtain ⟨gap, split, isGap⟩ := trimRight_split Byte.isSpaceOrTab line
  refine ⟨⟨gap, split, fun byte member => Byte.isSpaceOrTab_iff.mp (isGap byte member)⟩, ?_⟩
  intro byte last
  have stop := List.head?_dropWhile_not Byte.isSpaceOrTab line.reverse
  rw [trimRight, List.getLast?_reverse] at last
  rw [last] at stop
  exact not_or.mp fun isGap => by simp [Byte.isSpaceOrTab_iff.mpr isGap] at stop

theorem trimRight_eq_iff :
    trimRight Byte.isSpaceOrTab line = trimRight Byte.isSpaceOrTab other ↔
      AlikeInFront line other := by
  constructor
  · intro same
    obtain ⟨gap, split, isGap⟩ := (trimmed_trimRight line).split
    obtain ⟨otherGap, otherSplit, otherIsGap⟩ := (trimmed_trimRight other).split
    refine ⟨_, gap, otherGap, split, same ▸ otherSplit, fun byte member => ?_⟩
    exact (List.mem_append.mp member).elim (isGap byte) (otherIsGap byte)
  · rintro ⟨kept, gap, otherGap, rfl, rfl, isGap⟩
    rw [trimRight_append fun byte member => isGap byte (List.mem_append_left _ member),
      trimRight_append fun byte member => isGap byte (List.mem_append_right _ member)]

end Bytes

namespace Format

open Text (utf8)

variable {line other text package : Bytes}

def IsComment (line : Bytes) : Prop :=
  Byte.lf ∉ line ∧ ∃ rest, line = Byte.slash :: Byte.slash :: rest ∧
    ∀ byte, rest.head? = some byte → byte = Byte.space ∨ byte = Byte.tab

def uncomment (comment : Bytes) : Bytes := Bytes.dropLeading Byte.space (comment.drop 2)

def linesOf (text : Bytes) : List Bytes := if text = [] then [] else Bytes.split Byte.lf text

structure Documents (text : Bytes) (comments : List Bytes) : Prop where
  length : comments.length = if text = [] then 0 else text.count Byte.lf + 1
  isComment : ∀ comment ∈ comments, IsComment comment
  lines : List.Forall₂ Bytes.Trimmed (linesOf text) (comments.map uncomment)

theorem isComment_commentLine (inside : Byte.lf ∉ line) : IsComment (commentLine line) := by
  obtain ⟨gap, split, -⟩ := (Bytes.trimmed_trimRight line).split
  have kept : Byte.lf ∉ Bytes.trimRight Byte.isSpaceOrTab line := by
    rw [split] at inside
    exact fun member => inside (List.mem_append_left gap member)
  unfold commentLine
  split
  · exact ⟨by decide, [], rfl, by simp⟩
  · rename_i first rest shape
    rw [shape] at kept
    split
    · rename_i tab
      refine ⟨?_, first :: rest, rfl, by simp [tab]⟩
      exact fun member => kept (by simpa [Byte.lf, Byte.slash] using member)
    · refine ⟨?_, Byte.space :: first :: rest, rfl, by simp⟩
      exact fun member => kept (by simpa [Byte.lf, Byte.slash, Byte.space] using member)

theorem uncomment_commentLine (line : Bytes) :
    uncomment (commentLine line) = Bytes.trimRight Byte.isSpaceOrTab line := by
  unfold commentLine
  split
  · rename_i empty
    rw [empty]
    rfl
  · rename_i first rest shape
    rw [shape]
    split
    · rename_i tab
      rw [tab]
      rfl
    · rfl

theorem commentLine_eq_iff : commentLine line = commentLine other ↔
    Bytes.AlikeInFront line other := by
  rw [← Bytes.trimRight_eq_iff]
  constructor
  · intro same
    rw [← uncomment_commentLine, same, uncomment_commentLine]
  · intro same
    rw [commentLine, commentLine, same]

theorem commentLines_eq (text : Bytes) : commentLines text = (linesOf text).map commentLine := by
  unfold commentLines linesOf
  cases text <;> rfl

theorem isComment_of_mem (member : line ∈ commentLines text) : IsComment line := by
  rw [commentLines_eq] at member
  obtain ⟨part, isPart, rfl⟩ := List.mem_map.mp member
  refine isComment_commentLine ?_
  unfold linesOf at isPart
  split at isPart
  · contradiction
  · exact Bytes.not_mem_of_mem_split isPart

theorem documents_commentLines (text : Bytes) : Documents text (commentLines text) where
  length := by
    rw [commentLines_eq, List.length_map, linesOf]
    split
    · rfl
    · exact Bytes.length_split Byte.lf text
  isComment _ member := isComment_of_mem member
  lines := by
    rw [commentLines_eq, List.map_map, List.forall₂_map_right_iff]
    refine List.forall₂_same.mpr fun line _ => ?_
    rw [Function.comp_apply, uncomment_commentLine]
    exact Bytes.trimmed_trimRight line

theorem commentLines_eq_iff : commentLines text = commentLines other ↔
    (text = [] ↔ other = []) ∧
      List.Forall₂ Bytes.AlikeInFront (Bytes.split Byte.lf text) (Bytes.split Byte.lf other) := by
  have lineByLine : (Bytes.split Byte.lf text).map commentLine =
        (Bytes.split Byte.lf other).map commentLine ↔
      List.Forall₂ Bytes.AlikeInFront (Bytes.split Byte.lf text) (Bytes.split Byte.lf other) := by
    rw [← List.forall₂_eq_eq_eq, List.forall₂_map_left_iff, List.forall₂_map_right_iff]
    simp only [commentLine_eq_iff]
  rw [commentLines_eq, commentLines_eq, linesOf, linesOf, ← lineByLine]
  by_cases empty : text = [] <;> by_cases otherEmpty : other = []
  · simp [empty, otherEmpty]
  · simp [empty, otherEmpty, Bytes.split_ne_nil]
  · simp [empty, otherEmpty, Bytes.split_ne_nil]
  · simp [empty, otherEmpty]

theorem goFile_of_isIdentifier (isName : isIdentifier package = true) (text : Bytes) :
    goFile package text = .ok (header ++ Byte.lf :: Byte.lf ::
      ((commentLines text).flatMap (fun comment => comment ++ [Byte.lf]) ++
        (utf8 "package " ++ package ++ [Byte.lf]))) := by
  simp [goFile, isName]

/-- A Go file is its header, an empty line, a comment that documents the text line by line, and the
clause with the name of the package. Two texts have the same file exactly if both or neither are
empty and their lines differ at most in the spaces and tabs at their ends. -/
theorem render_go (isName : isIdentifier package = true) :
    (∀ text, ∃ comments, Documents text comments ∧
      render .go package text = .ok (header ++ Byte.lf :: Byte.lf ::
        (comments.flatMap (fun comment => comment ++ [Byte.lf]) ++
          (utf8 "package " ++ package ++ [Byte.lf])))) ∧
    ∀ text other, render .go package text = render .go package other ↔
      (text = [] ↔ other = []) ∧
        List.Forall₂ Bytes.AlikeInFront (Bytes.split Byte.lf text)
          (Bytes.split Byte.lf other) := by
  refine ⟨fun text => ⟨commentLines text, documents_commentLines text, ?_⟩, fun text other => ?_⟩
  · exact goFile_of_isIdentifier isName text
  · rw [← commentLines_eq_iff, render, render, goFile_of_isIdentifier isName,
      goFile_of_isIdentifier isName]
    constructor
    · intro same
      have files := List.append_cancel_left (Except.ok.inj same)
      have comments := List.append_cancel_right (List.cons.inj (List.cons.inj files).2).2
      exact Bytes.ended_injective (fun line member => (isComment_of_mem member).1)
        (fun line member => (isComment_of_mem member).1) comments
    · intro same
      rw [same]

theorem render_go_fruit :
    let text : Bytes := utf8 "a */ \n\tb\r\n \t\n//go:c"
    let other : Bytes := utf8 "a */\n\tb\r\n\n//go:c\t"
    isIdentifier (utf8 "fruit") = true ∧
      render .go (utf8 "fruit") text =
        .ok (header ++ utf8 "\n\n// a */\n//\tb\r\n//\n// //go:c\npackage fruit\n") ∧
      render .go (utf8 "fruit") text = render .go (utf8 "fruit") other := by
  have isName : isIdentifier (utf8 "fruit") = true := by decide +kernel
  refine ⟨isName, by decide +kernel, ((render_go isName).2 _ _).mpr ⟨by decide +kernel, ?_⟩⟩
  have lines : Bytes.split Byte.lf (utf8 "a */ \n\tb\r\n \t\n//go:c") =
      [utf8 "a */ ", utf8 "\tb\r", utf8 " \t", utf8 "//go:c"] := by decide +kernel
  have otherLines : Bytes.split Byte.lf (utf8 "a */\n\tb\r\n\n//go:c\t") =
      [utf8 "a */", utf8 "\tb\r", [], utf8 "//go:c\t"] := by decide +kernel
  rw [lines, otherLines]
  have alike {line other : Bytes} (same : Bytes.trimRight Byte.isSpaceOrTab line =
      Bytes.trimRight Byte.isSpaceOrTab other) : Bytes.AlikeInFront line other :=
    Bytes.trimRight_eq_iff.mp same
  exact .cons (alike (by decide +kernel)) (.cons (alike rfl)
    (.cons (alike (by decide +kernel)) (.cons (alike (by decide +kernel)) .nil)))

end Format

end DocPrologue
