import DocPrologue.Proofs.Inclusions
import DocPrologue.Proofs.RoundTrip
import DocPrologue.Proofs.Verbatim

/-!
The normal form of prologues. However it is written, a prologue is read as lines without line feeds
of which the last one shows. Such lines are told by the text they make together, and where none of
them ends like a line end they can be written as line comments again.
-/

namespace DocPrologue

open Text (isBlank)

theorem Bytes.not_mem_of_infix {byte : UInt8} {part text : Bytes} (absent : byte ∉ text)
    (piece : part <:+: text) : byte ∉ part := fun member => absent (piece.mem member)

theorem Bytes.not_mem_line (text : Bytes) : Byte.lf ∉ line text := by
  have first : Byte.lf ∉ text.takeWhile (· != Byte.lf) := by
    intro member
    simpa using List.all_eq_true.mp (List.all_takeWhile (l := text)) _ member
  exact not_mem_of_infix first (infix_dropTrailing _ _)

theorem Comment.unbroken_of_blockLines {line body : Bytes} (member : line ∈ blockLines body) :
    Byte.lf ∉ line := by
  obtain ⟨part, isPart, piece⟩ := exists_part_of_blockLines member
  exact Bytes.not_mem_of_infix (Bytes.not_mem_of_mem_split isPart) piece

theorem Cursor.Passage.unbroken {cursor after : Cursor} {region : Region} {line : Bytes}
    (passage : Passage cursor region after) (member : line ∈ region.lines) : Byte.lf ∉ line := by
  cases passage with
  | endOfInput _ => contradiction
  | code _ => contradiction
  | otherAttribute _ _ => contradiction
  | blank _ => contradiction
  | lineComment _ =>
      rw [List.mem_singleton.mp member]
      exact Bytes.not_mem_of_infix (Bytes.not_mem_line cursor.rest)
        ((Bytes.infix_dropLeading _ _).trans (List.drop_suffix _ _).isInfix)
  | blockComment _ _ => exact Comment.unbroken_of_blockLines member
  | docAttribute _ _ _ => exact Bytes.not_mem_of_mem_split member

namespace Block

structure Normal (block : Block) : Prop where
  unbroken : ∀ line ∈ block, Byte.lf ∉ line
  shown : ∀ line, block.getLast? = some line → isBlank line = false

namespace Normal

variable {block : Block} (normal : block.Normal)

include normal

theorem split_text (filled : block ≠ []) : Bytes.split Byte.lf block.text = block :=
  Bytes.split_join filled normal.unbroken

theorem text_eq_nil_iff : block.text = [] ↔ block = [] := by
  constructor
  · intro empty
    refine Classical.byContradiction fun filled => ?_
    have alone := normal.split_text filled
    rw [empty] at alone
    have blank := normal.shown [] (by rw [← alone]; rfl)
    rw [Text.isBlank_nil] at blank
    contradiction
  · rintro rfl
    rfl

theorem extract_lineComments (noReturn : ∀ line ∈ block, line.getLast? ≠ some Byte.cr)
    (name : Bytes) : extract name (Written.lineComments block) = .ok block := by
  have ends : Scan.EndsPrologue [] := .inl rfl
  by_cases filled : block = []
  · have empty : (Scan.start name []).result = .ok [] := Scan.result_of_endsPrologue ends
    rw [filled, Scan.extract_eq, Written.lineComments, List.flatMap_nil, empty]
    rfl
  · have written :=
      Block.extract_lineComments name filled normal.unbroken normal.shown ends noReturn
    rwa [List.append_nil] at written

end Normal

theorem normal_of_extract {name source : Bytes} {block : Block}
    (done : extract name source = .ok block) : block.Normal := by
  have every : EveryLine (Bytes.withoutPreamble source) (Byte.lf ∉ ·) :=
    ⟨by simp, fun _ passage _ member => passage.unbroken member⟩
  refine ⟨every.extract done, ?_⟩
  rw [Scan.extract_eq] at done
  split at done
  · contradiction
  · rename_i lines _
    cases done
    intro line last
    have first := List.head?_dropWhile_not isBlank lines
    rw [List.getLast?_reverse] at last
    rw [last] at first
    simpa using first

/-- A prologue that is read is in normal form: its text is empty only if it has no lines, and is
divided into its lines by its line feeds; and written as line comments it is read again. Where
reading fails there is no prologue. -/
theorem extract_normal (name source : Bytes) :
    (∀ block, extract name source = .ok block →
      (∀ line ∈ block, Byte.lf ∉ line) ∧
      (∀ line, block.getLast? = some line → isBlank line = false) ∧
      (block.text = [] ↔ block = []) ∧ (block ≠ [] → Bytes.split Byte.lf block.text = block) ∧
      ((∀ line ∈ block, line.getLast? ≠ some Byte.cr) → ∀ other,
        extract other (Written.lineComments block) = .ok block)) ∧
    ∀ error, extract name source = .error error → (extract name source).toOption = none := by
  refine ⟨?_, fun _ failed => by rw [failed]; rfl⟩
  intro block done
  have normal := normal_of_extract done
  exact ⟨normal.unbroken, normal.shown, normal.text_eq_nil_iff, normal.split_text,
    normal.extract_lineComments⟩

theorem extract_normal_escape :
    let source : Bytes := Text.utf8 "#![doc = \"a\\n b\\n \"]\n\n"
    let block : Block := [Text.utf8 "a", Text.utf8 " b"]
    extract [] source = .ok block ∧ Bytes.split Byte.lf block.text = block ∧
      extract [] (Written.lineComments block) = .ok block := by
  intro source block
  have done : extract [] source = .ok block := by decide +kernel
  obtain ⟨-, -, -, split, again⟩ := (extract_normal [] source).1 block done
  exact ⟨done, split (by decide), again (by decide) []⟩

end Block

end DocPrologue
