import DocPrologue.Proofs.Displacement
import DocPrologue.Proofs.Faults

/-!
Positions in a source. A position tells how much of the source stands in front of it, as a number of
bytes and as lines and columns, and either of these tells the other. Whatever reading reports, it
reports at the byte that it means.
-/

namespace DocPrologue

namespace Bytes

variable {front more text : Bytes}

def lastLine (text : Bytes) : Bytes := (text.reverse.takeWhile (· != Byte.lf)).reverse

theorem exists_lastLine (text : Bytes) :
    ∃ front, text = front ++ lastLine text ∧ (front = [] ∨ front.getLast? = some Byte.lf) := by
  refine ⟨(text.reverse.dropWhile (· != Byte.lf)).reverse, ?_, ?_⟩
  · rw [lastLine, ← List.reverse_append, List.takeWhile_append_dropWhile, List.reverse_reverse]
  · rw [List.getLast?_reverse]
    cases shape : text.reverse.dropWhile (· != Byte.lf) with
    | nil => exact .inl rfl
    | cons byte rest =>
        have stops := List.head?_dropWhile_not (· != Byte.lf) text.reverse
        rw [shape] at stops
        exact .inr (by simpa using stops)

theorem not_mem_lastLine (text : Bytes) : Byte.lf ∉ lastLine text := by
  intro member
  have inside := List.all_eq_true.mp List.all_takeWhile _ (List.mem_reverse.mp member)
  simp at inside

theorem lastLine_append (noFeed : Byte.lf ∉ more) :
    lastLine (front ++ more) = lastLine front ++ more := by
  have passes : ∀ byte ∈ more.reverse, (byte != Byte.lf) = true := by
    intro byte member
    have inside := List.mem_reverse.mp member
    exact bne_iff_ne.mpr fun feed => noFeed (feed ▸ inside)
  rw [lastLine, List.reverse_append, List.takeWhile_append_of_pos passes, List.reverse_append,
    List.reverse_reverse, lastLine]

end Bytes

theorem Place.column_advance_start (passed : Bytes) :
    (Place.start.advance passed).column = (Bytes.lastLine passed).length + 1 := by
  obtain ⟨front, shape, ended⟩ := Bytes.exists_lastLine passed
  have base : (Place.start.advance front).column = 1 := by
    rcases ended with rfl | ended
    · rfl
    · exact column_advance_ended ended Place.start
  conv => lhs; rw [shape]
  rw [advance_append, column_advance_of_not_mem (Bytes.not_mem_lastLine passed), base,
    Nat.add_comm]

namespace Position

variable {name source spot otherSpot passed : Bytes} {position other : Position}

structure Marks (position : Position) (name source spot : Bytes) : Prop where
  file : position.file = name
  within : 0 ≤ position.offset ∧ position.offset ≤ source.length
  spot : source.drop position.offset.toNat = spot
  line : position.line = (source.take position.offset.toNat).count Byte.lf + 1
  column : position.column = (Bytes.lastLine (source.take position.offset.toNat)).length + 1

def Precedes (position other : Position) : Prop :=
  position.line < other.line ∨ position.line = other.line ∧ position.column < other.column

theorem marks_ofPlace (name passed spot : Bytes) :
    (ofPlace name (Place.start.advance passed)).Marks name (passed ++ spot) spot := by
  have offset : (ofPlace name (Place.start.advance passed)).offset = passed.length := by
    rw [ofPlace, Place.offset_advance]
    simp [Place.start]
  have front : (ofPlace name (Place.start.advance passed)).offset.toNat = passed.length := by
    rw [offset, Int.toNat_natCast]
  refine ⟨rfl, ?_, ?_, ?_, ?_⟩
  · rw [offset, List.length_append]
    omega
  · rw [front, List.drop_left]
  · rw [front, List.take_left, ofPlace, Place.line_advance]
    simp [Place.start, Int.add_comm]
  · rw [front, List.take_left, ofPlace, Place.column_advance_start]
    simp

namespace Marks

variable (first : position.Marks name source spot) (second : other.Marks name source otherSpot)

include first second

theorem eq_of_offset (same : position.offset = other.offset) : position = other := by
  obtain ⟨file, offset, line, column⟩ := position
  obtain ⟨otherFile, otherOffset, otherLine, otherColumn⟩ := other
  obtain rfl : offset = otherOffset := same
  rw [mk.injEq]
  exact ⟨first.file.trans second.file.symm, rfl, first.line.trans second.line.symm,
    first.column.trans second.column.symm⟩

theorem precedes (earlier : position.offset < other.offset) : position.Precedes other := by
  obtain ⟨more, shape⟩ : source.take position.offset.toNat <+: source.take other.offset.toNat :=
    List.take_prefix_take_left (by omega)
  have lines := second.line
  have columns := second.column
  rw [← shape, List.count_append] at lines
  rw [← shape] at columns
  by_cases feed : Byte.lf ∈ more
  · have positive := List.count_pos_iff.mpr feed
    exact .inl (by rw [first.line, lines]; omega)
  · have none := List.count_eq_zero.mpr feed
    have length := congrArg List.length shape
    rw [List.length_append, List.length_take, List.length_take] at length
    have within := first.within
    have otherWithin := second.within
    rw [Bytes.lastLine_append feed, List.length_append] at columns
    refine .inr ⟨by rw [first.line, lines]; omega, ?_⟩
    rw [first.column, columns]
    omega

end Marks

theorem Marks.offset_lt_iff (first : position.Marks name source spot)
    (second : other.Marks name source otherSpot) :
    position.offset < other.offset ↔ position.Precedes other := by
  refine ⟨first.precedes second, fun precedes => ?_⟩
  rcases Int.lt_trichotomy position.offset other.offset with earlier | same | later
  · exact earlier
  · rw [first.eq_of_offset second same] at precedes
    unfold Precedes at precedes
    omega
  · have behind := second.precedes first later
    unfold Precedes at precedes behind
    omega

theorem Marks.eq_of_line_column (first : position.Marks name source spot)
    (second : other.Marks name source otherSpot) (lines : position.line = other.line)
    (columns : position.column = other.column) : position = other := by
  have forwards := first.offset_lt_iff second
  have backwards := second.offset_lt_iff first
  unfold Precedes at forwards backwards
  exact first.eq_of_offset second (by omega)

theorem Marks.offset_add_length (marks : position.Marks name source spot) :
    position.offset + spot.length = source.length := by
  have within := marks.within
  rw [← marks.spot, List.length_drop]
  omega

end Position

namespace Cursor

variable {cursor : Cursor} {name source passed spot : Bytes} {error : Malformed}
  {reason : Malformed.Reason}

theorem Stands.marks (stands : cursor.Stands name source passed) (within : spot <:+ cursor.rest) :
    (cursor.positionOf spot).Marks name source spot := by
  obtain ⟨used, shape⟩ := within
  have whole : source = (passed ++ used) ++ spot := by
    rw [stands.whole, ← shape, List.append_assoc]
  rw [positionOf, ← shape, Place.advanceTo_append, stands.place, ← Place.advance_append,
    stands.name, whole]
  exact Position.marks_ofPlace name (passed ++ used) spot

theorem Stands.marks_position (stands : cursor.Stands name source passed) :
    cursor.position.Marks name source cursor.rest :=
  cursor.positionOf_rest ▸ stands.marks List.suffix_rfl

theorem Blames.suffix (blames : cursor.Blames reason spot) : spot <:+ cursor.rest := by
  cases blames with
  | blockComment _ _ => exact List.suffix_rfl
  | docAttribute shape _ begins inside =>
      rw [shape]
      exact (inside.suffix begins).trans (List.suffix_append _ _)

theorem Blames.length_lt (blames : cursor.Blames reason spot)
    (other : reason ≠ .unterminatedBlock) : spot.length < cursor.rest.length := by
  cases blames with
  | blockComment _ _ => contradiction
  | docAttribute shape opening begins inside =>
      obtain ⟨first, second, third, fourth, -, -, -, -, rfl⟩ := opening
      have within := (inside.suffix begins).length_le
      rw [shape]
      simp only [List.length_append, List.length_cons]
      omega

/-- Whatever is asked of a cursor, the region it reads next is reported at the cursor, and a fault
at the text that is to blame for it. Of two positions in a source the first one comes first exactly
if its line and column do, so a line and a column tell the position. -/
theorem next_positions (name source : Bytes) (calls : List Call) :
    let cursor := (ofSource name source).afterAll calls
    (∀ region after, cursor.next = .ok (region, after) →
      region.position.Marks name source cursor.rest) ∧
    (∀ error, cursor.next = .error error → ∃ spot, error.position.Marks name source spot ∧
      cursor.Blames error.reason spot ∧
      (error.reason ≠ .unterminatedBlock → cursor.position.offset < error.position.offset)) ∧
    ∀ first second firstSpot secondSpot, Position.Marks first name source firstSpot →
      Position.Marks second name source secondSpot →
      (first.offset < second.offset ↔ first.Precedes second) ∧
        (first.line = second.line → first.column = second.column → first = second) := by
  intro cursor
  obtain ⟨passed, stands⟩ := ofSource_stands name source
  obtain ⟨more, reached⟩ := stands.afterAll calls
  have here : cursor.position.Marks name source cursor.rest := reached.marks_position
  refine ⟨?_, ?_, ?_⟩
  · intro region after read
    rw [(next_eq_ok_iff.mp read).position]
    exact here
  · intro error failed
    obtain ⟨spot, blames, place⟩ := next_eq_error_iff.mp failed
    have marks : error.position.Marks name source spot := place ▸ reached.marks blames.suffix
    refine ⟨spot, marks, blames, fun other => ?_⟩
    have shorter := blames.length_lt other
    have start := here.offset_add_length
    have stop := marks.offset_add_length
    omega
  · intro first second firstSpot secondSpot marks otherMarks
    exact ⟨marks.offset_lt_iff otherMarks, marks.eq_of_line_column otherMarks⟩

theorem next_positions_escape :
    let source : Bytes := Text.utf8 "//! a\n#![doc = \"b\nc\\q\"]"
    let start := (ofSource [] source).afterAll []
    let cursor := (ofSource [] source).afterAll [.next]
    let region : Region := ⟨.lineComment, ⟨[], 0, 1, 1⟩, [Text.utf8 "a"], false⟩
    let error : Malformed := ⟨⟨[], 19, 3, 2⟩, .badAttribute (.literal (.unknownEscape 0x71))⟩
    start.next = .ok (region, cursor) ∧ region.position.Marks [] source start.rest ∧
      cursor.next = .error error ∧ error.position.Marks [] source (Text.utf8 "\\q\"]") ∧
      cursor.Blames error.reason (Text.utf8 "\\q\"]") ∧
      cursor.position.offset < error.position.offset ∧
      region.position.Precedes error.position := by
  intro source start cursor region error
  obtain ⟨regions, -, orders⟩ := next_positions [] source []
  obtain ⟨-, faults, -⟩ := next_positions [] source [.next]
  have read : start.next = .ok (region, cursor) := by decide +kernel
  have failed : cursor.next = .error error := by decide +kernel
  have marks := regions region cursor read
  obtain ⟨spot, errorMarks, blames, behind⟩ := faults error failed
  have same : Text.utf8 "\\q\"]" = spot := by
    rw [← errorMarks.spot]
    decide +kernel
  rw [← same] at errorMarks blames
  refine ⟨read, marks, failed, errorMarks, blames, behind (by decide), ?_⟩
  exact (orders _ _ _ _ marks errorMarks).1.mp (by decide)

end Cursor

end DocPrologue
