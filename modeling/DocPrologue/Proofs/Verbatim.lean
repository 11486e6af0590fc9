import DocPrologue.Proofs.LineComments
import DocPrologue.Proofs.Lookahead
import DocPrologue.Proofs.Paths

/-!
Prologues without escapes. Reading takes away marks, decoration and line ends, and only an escape
puts anything in: behind the preamble of a source that has no backslash there, each line of the
prologue stands as it is.
-/

namespace DocPrologue

inductive Keeps : Bytes → Bytes → Prop
  | nil (text : Bytes) : Keeps text []
  | byte {text kept : Bytes} (byte : UInt8) : Keeps text kept → Keeps (byte :: text) (byte :: kept)
  | lineEnd {text kept : Bytes} : Keeps (Byte.lf :: text) kept →
      Keeps (Byte.cr :: Byte.lf :: text) kept

namespace Keeps

variable {text kept part : Bytes}

theorem refl (text : Bytes) : Keeps text text := by
  induction text with
  | nil => exact .nil []
  | cons byte text ih => exact .byte byte ih

theorem dropReturns (content rest : Bytes) :
    Keeps (content ++ rest) (Bytes.dropReturns content) := by
  fun_induction Bytes.dropReturns content with
  | case1 => exact .nil rest
  | case2 byte text returns ih =>
      obtain ⟨rfl, feed⟩ := returns
      obtain ⟨after, rfl⟩ := List.head?_eq_some_iff.mp feed
      exact .lineEnd ih
  | case3 byte text _ ih => exact .byte byte ih

theorem pieces (keeps : Keeps text kept) :
    ∃ first others, Bytes.split Byte.lf kept = first :: others ∧ first <+: text ∧
      ∀ part ∈ others, part <:+: text := by
  induction keeps with
  | nil text => exact ⟨[], [], rfl, List.nil_prefix, by simp⟩
  | @byte text kept byte _ ih =>
      obtain ⟨first, others, split, starts, inside⟩ := ih
      have later : ∀ part ∈ others, part <:+: byte :: text :=
        fun part member => List.infix_cons (inside part member)
      rw [Bytes.split_cons, split]
      split
      · refine ⟨[], first :: others, rfl, List.nil_prefix, fun part member => ?_⟩
        rcases List.mem_cons.mp member with rfl | more
        · exact List.infix_cons starts.isInfix
        · exact later part more
      · exact ⟨byte :: first, others, rfl, (List.prefix_cons_inj byte).mpr starts, later⟩
  | @lineEnd text kept _ ih =>
      obtain ⟨first, others, split, starts, inside⟩ := ih
      refine ⟨first, others, split, ?_, fun part member => List.infix_cons (inside part member)⟩
      -- The first line ends in front of the line feed, so it is empty.
      rcases List.prefix_cons_iff.mp starts with rfl | ⟨rest, rfl, -⟩
      · exact List.nil_prefix
      · have noFeed : Byte.lf ∉ Byte.lf :: rest :=
          Bytes.not_mem_of_mem_split (split ▸ List.mem_cons_self ..)
        exact absurd (List.mem_cons_self ..) noFeed

theorem piece (keeps : Keeps text kept) (member : part ∈ Bytes.split Byte.lf kept) :
    part <:+: text := by
  obtain ⟨first, others, split, starts, inside⟩ := keeps.pieces
  rw [split] at member
  rcases List.mem_cons.mp member with rfl | later
  · exact starts.isInfix
  · exact inside part later

end Keeps

namespace Bytes

theorem infix_dropTrailing (byte : UInt8) (text : Bytes) : dropTrailing byte text <:+: text := by
  rcases dropTrailing_eq_or byte text with same | shorter
  · exact ⟨[], [], by simp [same]⟩
  · exact ⟨[], [byte], shorter.symm⟩

theorem infix_dropLeading (byte : UInt8) (text : Bytes) : dropLeading byte text <:+: text := by
  fun_cases dropLeading byte text with
  | case1 => exact List.infix_rfl
  | case2 rest => exact (List.suffix_cons byte rest).isInfix
  | case3 => exact List.infix_rfl

end Bytes

namespace Comment

variable {line text body : Bytes} {lines : List Bytes} {holds : Bytes → Prop}

structure KeptByDecoding (holds : Bytes → Prop) : Prop where
  empty : holds []
  leading {text : Bytes} : holds text → holds (Bytes.dropLeading Byte.space text)
  trailing {byte : UInt8} {text : Bytes} : byte = Byte.space ∨ byte = Byte.cr → holds text →
    holds (Bytes.dropTrailing byte text)
  star {line rest : Bytes} : line.dropWhile Byte.isSpaceOrTab = Byte.star :: rest → holds line →
    holds rest

namespace KeptByDecoding

variable (kept : KeptByDecoding holds)

include kept

theorem orEmpty {condition : Prop} [Decidable condition] (known : holds text) :
    holds (if condition then [] else text) := by
  split
  · exact kept.empty
  · exact known

theorem continuation (known : holds line) : holds (continuation line) := by
  unfold Comment.continuation
  apply kept.orEmpty
  split
  · rename_i first rest shape
    split
    · rename_i decorated
      exact kept.leading (kept.star (decorated.1 ▸ shape) known)
    · exact known
  · exact known

theorem laterLines (known : ∀ line ∈ lines, holds line) :
    ∀ text ∈ laterLines lines, holds text := by
  fun_induction Comment.laterLines lines with
  | case1 => simp
  | case2 last _ => simp
  | case3 last _ =>
      intro text member
      rw [List.mem_singleton.mp member]
      exact kept.continuation (kept.trailing (.inl rfl) (known last (by simp)))
  | case4 line rest _ ih =>
      refine List.forall_mem_cons.mpr ⟨kept.continuation (known line (by simp)), ?_⟩
      exact ih fun other member => known other (by simp [member])

theorem blockLines (known : ∀ part ∈ Bytes.split Byte.lf body, holds part) :
    ∀ text ∈ blockLines body, holds text := by
  have physical : ∀ line ∈ (Bytes.split Byte.lf body).map (Bytes.dropTrailing Byte.cr),
      holds line := by
    intro line isLine
    obtain ⟨part, isPart, rfl⟩ := List.mem_map.mp isLine
    exact kept.trailing (.inr rfl) (known part isPart)
  unfold Comment.blockLines
  split
  · simp
  · rename_i only split
    rw [split] at physical
    dsimp only
    split
    · simp
    · intro text member
      rw [List.mem_singleton.mp member]
      exact kept.trailing (.inl rfl) (kept.leading (physical only (by simp)))
  · rename_i first later _ split
    rw [split] at physical
    have more := kept.laterLines fun line member => physical line (List.mem_cons_of_mem _ member)
    dsimp only
    split
    · exact more
    · exact List.forall_mem_cons.mpr ⟨kept.leading (physical first (by simp)), more⟩

end KeptByDecoding

theorem exists_part_of_blockLines (member : text ∈ blockLines body) :
    ∃ part ∈ Bytes.split Byte.lf body, text <:+: part := by
  have shorter {first second : Bytes} (piece : second <:+: first)
      (known : ∃ part ∈ Bytes.split Byte.lf body, first <:+: part) :
      ∃ part ∈ Bytes.split Byte.lf body, second <:+: part := by
    obtain ⟨part, isPart, whole⟩ := known
    exact ⟨part, isPart, piece.trans whole⟩
  have kept : KeptByDecoding fun text => ∃ part ∈ Bytes.split Byte.lf body, text <:+: part := by
    obtain ⟨part, isPart⟩ := List.exists_mem_of_ne_nil _ (Bytes.split_ne_nil Byte.lf body)
    refine ⟨⟨part, isPart, List.nil_infix⟩, shorter (Bytes.infix_dropLeading _ _),
      fun _ => shorter (Bytes.infix_dropTrailing _ _), fun {line rest} shape => shorter ?_⟩
    have dropped := (List.dropWhile_suffix Byte.isSpaceOrTab (l := line)).isInfix
    rw [shape] at dropped
    exact (List.suffix_cons Byte.star rest).isInfix.trans dropped
  exact kept.blockLines (fun part isPart => ⟨part, isPart, List.infix_rfl⟩) text member

theorem piece_of_blockLines (member : text ∈ blockLines body) : text <:+: body := by
  obtain ⟨part, isPart, piece⟩ := exists_part_of_blockLines member
  exact piece.trans ((Keeps.refl body).piece isPart)

end Comment

namespace Literal

variable {whole seen text value rest : Bytes}

theorem plain_keeps (noEscape : Byte.backslash ∉ text)
    (done : plain whole seen text = .ok (value, rest)) :
    ∃ kept, value = seen.reverse ++ kept ∧ Keeps text kept := by
  fun_induction plain whole seen text with
  | case1 => contradiction
  | case2 seen rest =>
      obtain ⟨rfl, rfl⟩ := Prod.mk.inj (Except.ok.inj done)
      exact ⟨[], (List.append_nil _).symm, .nil _⟩
  | case3 seen rest feed _ ih =>
      obtain ⟨kept, same, keeps⟩ := ih (fun member => noEscape (by simp [member])) done
      obtain ⟨after, rfl⟩ := List.head?_eq_some_iff.mp feed
      exact ⟨kept, same, .lineEnd keeps⟩
  | case4 => contradiction
  | case5 => exact absurd (List.mem_cons_self ..) noEscape
  | case6 => exact absurd (List.mem_cons_self ..) noEscape
  | case7 => exact absurd (List.mem_cons_self ..) noEscape
  | case8 seen byte rest _ _ _ ih =>
      obtain ⟨kept, rfl, keeps⟩ := ih (fun member => noEscape (by simp [member])) done
      exact ⟨byte :: kept, by simp, .byte byte keeps⟩

theorem raw_keeps (done : raw whole text = .ok (value, rest)) :
    ∃ front body, text = front ++ body ∧ Keeps body value := by
  obtain ⟨hashes, content, -, rfl, rfl, -⟩ := raw_split done
  refine ⟨hashes ++ [Byte.quote], content ++ (closing hashes.length ++ rest), ?_, ?_⟩
  · rw [List.append_assoc, List.singleton_append]
  · exact Keeps.dropReturns content _

theorem read_keeps (noEscape : Byte.backslash ∉ text) (done : read text = .ok (value, rest)) :
    ∃ front body, text = front ++ body ∧ Keeps body value := by
  unfold read at done
  split at done
  · contradiction
  · rename_i byte after
    split at done
    · obtain ⟨front, body, rfl, keeps⟩ := raw_keeps done
      exact ⟨byte :: front, body, rfl, keeps⟩
    · split at done
      · obtain ⟨kept, rfl, keeps⟩ := plain_keeps (fun member => noEscape (by simp [member])) done
        exact ⟨[byte], after, rfl, keeps⟩
      · contradiction

end Literal

namespace Cursor

variable {cursor after : Cursor} {region : Region} {line : Bytes}

theorem Passage.piece (passage : Passage cursor region after)
    (noEscape : Byte.backslash ∉ cursor.rest) (member : line ∈ region.lines) :
    line <:+: cursor.rest := by
  cases passage with
  | endOfInput _ => contradiction
  | code _ => contradiction
  | otherAttribute _ _ => contradiction
  | blank _ => contradiction
  | lineComment _ =>
      rw [List.mem_singleton.mp member]
      obtain ⟨rest, whole⟩ := Bytes.exists_eq_line_append cursor.rest
      have first : Bytes.line cursor.rest <:+: cursor.rest := ⟨[], rest, whole.symm⟩
      exact ((Bytes.infix_dropLeading _ _).trans (List.drop_suffix _ _).isInfix).trans first
  | @blockComment body tail shape _ =>
      have inside : body <:+: cursor.rest := by
        rw [shape, ← List.append_assoc]
        exact List.infix_append _ _ _
      exact (Comment.piece_of_blockLines member).trans inside
  | @docAttribute body value text tail opened literal read =>
      have within : value <:+ cursor.rest :=
        (Attribute.literal?_suffix literal).trans (Attribute.body?_suffix opened)
      obtain ⟨gap, -, done⟩ := Attribute.read_eq_ok_iff.mp read
      obtain ⟨front, kept, rfl, keeps⟩ :=
        Literal.read_keeps (fun member => noEscape (within.mem member)) done
      exact (keeps.piece member).trans ((List.suffix_append front kept).trans within).isInfix

end Cursor

namespace Block

structure EveryLine (text : Bytes) (holds : Bytes → Prop) : Prop where
  empty : holds []
  region {cursor after : Cursor} {region : Region} : cursor.rest <:+ text →
    Cursor.Passage cursor region after → ∀ line ∈ region.lines, holds line

namespace Scan

variable {scan next last : Scan} {text : Bytes} {holds : Bytes → Prop} {lines : List Bytes}
  {turns : Nat}

structure Within (scan : Scan) (text : Bytes) (holds : Bytes → Prop) : Prop where
  rest : scan.cursor.rest <:+ text
  lines : ∀ line ∈ scan.lines, holds line

theorem Within.region (within : scan.Within text holds) (every : EveryLine text holds)
    {region : Region} {after : Cursor} (passage : Cursor.Passage scan.cursor region after) :
    ∀ line ∈ region.lines.reverse ++ scan.lines, holds line := by
  intro line member
  rcases List.mem_append.mp member with fresh | kept
  · exact every.region within.rest passage line (List.mem_reverse.mp fresh)
  · exact within.lines line kept

theorem Within.turn (within : scan.Within text holds) (every : EveryLine text holds)
    (goes : scan.turn = .goOn next) : next.Within text holds := by
  obtain ⟨region, used, passage, takes, passed⟩ := goOn_region goes
  have rest : next.cursor.rest <:+ text :=
    (List.suffix_append used next.cursor.rest).trans (takes.rest ▸ within.rest)
  refine ⟨rest, ?_⟩
  rcases passed with ⟨-, same⟩ | ⟨-, -, same⟩
  · rw [same, passBlank]
    dsimp only
    split
    · exact List.forall_mem_cons.mpr ⟨every.empty, within.lines⟩
    · exact within.lines
  · rw [same]
    exact within.region every passage

theorem Within.run (run : Runs turns scan last) (within : scan.Within text holds)
    (every : EveryLine text holds) : last.Within text holds := by
  induction run with
  | refl scan => exact within
  | step goes _ ih => exact ih (within.turn every goes)

theorem Within.result (within : scan.Within text holds) (every : EveryLine text holds)
    (done : scan.result = .ok lines) : ∀ line ∈ lines, holds line := by
  obtain ⟨turns, last, run, ended⟩ := exists_last scan
  have reached := within.run run every
  rw [run.result, result_eq] at done
  cases ends : last.turn with
  | goOn next => exact absurd ends (ended next)
  | endOfInput =>
      rw [ends] at done
      exact Except.ok.inj done ▸ reached.lines
  | inFront =>
      rw [ends] at done
      exact Except.ok.inj done ▸ reached.lines
  | behind region after =>
      rw [ends] at done
      exact Except.ok.inj done ▸
        reached.region every (Cursor.next_eq_ok_iff.mp (behind_cases ends).2.1)
  | fail error =>
      rw [ends] at done
      contradiction

end Scan

theorem EveryLine.extract {name source : Bytes} {holds : Bytes → Prop} {block : Block}
    (every : EveryLine (Bytes.withoutPreamble source) holds)
    (done : extract name source = .ok block) : ∀ line ∈ block, holds line := by
  rw [Scan.extract_eq] at done
  have within : (Scan.start name source).Within (Bytes.withoutPreamble source) holds :=
    ⟨⟨[], Cursor.ofSource_rest name source⟩, by simp [Scan.start]⟩
  split at done
  · contradiction
  · rename_i lines found
    cases done
    intro line member
    have kept := (List.dropWhile_suffix Text.isBlank).mem (List.mem_reverse.mp member)
    exact within.result every found line kept

theorem piece_of_extract {name source : Bytes} {block : Block}
    (noEscape : Byte.backslash ∉ Bytes.withoutPreamble source)
    (done : extract name source = .ok block) :
    ∀ line ∈ block, line <:+: Bytes.withoutPreamble source := by
  have every : EveryLine (Bytes.withoutPreamble source) (· <:+: Bytes.withoutPreamble source) := by
    refine ⟨List.nil_infix, ?_⟩
    intro cursor after region within passage line member
    have clear : Byte.backslash ∉ cursor.rest := fun escape => noEscape (within.mem escape)
    exact (passage.piece clear member).trans within.isInfix
  exact every.extract done

end Block

end DocPrologue
