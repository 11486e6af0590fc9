import DocPrologue.Proofs.Progress

/-!
Scans that start elsewhere. What a scan reads is told by the text in front of it alone; the place it
starts at shows only where a fault is reported, and the lines gathered before stay below those that
it adds. So a fault is found at the same spot of the text, moved by what stands in front of it.
-/

namespace DocPrologue

namespace Place

theorem line_advance (place : Place) (passed : Bytes) :
    (place.advance passed).line = place.line + passed.count Byte.lf := by
  induction passed generalizing place with
  | nil => rfl
  | cons byte passed ih =>
      have rest : (place.advance (byte :: passed)).line =
          (place.step byte).line + passed.count Byte.lf := ih (place.step byte)
      rw [rest, List.count_cons, step]
      by_cases feed : byte = Byte.lf
      · simp only [feed, if_true, beq_self_eq_true]
        omega
      · simp only [feed, if_false, beq_iff_eq]
        omega

theorem column_advance_of_not_mem {passed : Bytes} (noFeed : Byte.lf ∉ passed) (place : Place) :
    (place.advance passed).column = place.column + passed.length := by
  induction passed generalizing place with
  | nil => rfl
  | cons byte passed ih =>
      simp only [List.mem_cons, not_or] at noFeed
      have first : (place.step byte).column = place.column + 1 := by
        rw [step, if_neg (Ne.symm noFeed.1)]
      have rest := ih noFeed.2 (place.step byte)
      rw [first] at rest
      rw [List.length_cons]
      exact rest.trans (by omega)

theorem column_advance_congr {first second : Place} (same : first.column = second.column)
    (passed : Bytes) : (first.advance passed).column = (second.advance passed).column := by
  induction passed generalizing first second with
  | nil => exact same
  | cons byte passed ih =>
      apply ih
      unfold step
      split
      · rfl
      · exact congrArg (· + 1) same

theorem column_advance_of_mem {passed : Bytes} (feed : Byte.lf ∈ passed) (first second : Place) :
    (first.advance passed).column = (second.advance passed).column := by
  obtain ⟨body, rest, rfl, -⟩ := List.eq_append_cons_of_mem feed
  rw [advance_append, advance_append]
  have feeds : ((first.advance body).step Byte.lf).column =
      ((second.advance body).step Byte.lf).column := rfl
  exact column_advance_congr feeds rest

theorem column_advance_ended {passed : Bytes} (ended : passed.getLast? = some Byte.lf)
    (place : Place) : (place.advance passed).column = 1 := by
  obtain ⟨front, rfl⟩ := List.getLast?_eq_some_iff.mp ended
  rw [advance_append]
  rfl

end Place

namespace Malformed

structure MovedBy (bytes lines columns : Nat) (error moved : Malformed) : Prop where
  file : moved.position.file = error.position.file
  offset : moved.position.offset = error.position.offset + bytes
  line : moved.position.line = error.position.line + lines
  column : moved.position.column = error.position.column + columns
  reason : moved.reason = error.reason

structure Displaced (base : Place) (error moved : Malformed) : Prop where
  reason : moved.reason = error.reason
  positions : ∃ file passed, error.position = .ofPlace file (Place.start.advance passed) ∧
    moved.position = .ofPlace file (base.advance passed)

/-- Only in the first line of the text it stands in does a fault move along its line. -/
theorem Displaced.movedBy {error moved : Malformed} {front : Bytes} {columns : Nat}
    (displaced : error.Displaced (Place.start.advance front) moved)
    (column : (Place.start.advance front).column = 1 + columns) :
    error.MovedBy front.length (front.count Byte.lf)
      (if error.position.line = 1 then columns else 0) moved := by
  obtain ⟨reason, file, passed, position, movedPosition⟩ := displaced
  have startOffset : Place.start.offset = 0 := rfl
  have startLine : Place.start.line = 1 := rfl
  have startColumn : Place.start.column = 1 := rfl
  have line := Place.line_advance Place.start passed
  refine ⟨by rw [position, movedPosition]; rfl, ?_, ?_, ?_, reason⟩
  · simp only [position, movedPosition, Position.ofPlace, Place.offset_advance]
    omega
  · simp only [position, movedPosition, Position.ofPlace, Place.line_advance]
    omega
  · simp only [position, movedPosition, Position.ofPlace]
    by_cases feed : Byte.lf ∈ passed
    · have positive := List.count_pos_iff.mpr feed
      rw [if_neg (by omega), Place.column_advance_of_mem feed _ Place.start]
      omega
    · have none := List.count_eq_zero.mpr feed
      rw [if_pos (by omega), Place.column_advance_of_not_mem feed,
        Place.column_advance_of_not_mem feed]
      omega

end Malformed

namespace Cursor

structure Displaced (base : Place) (cursor moved : Cursor) : Prop where
  name : moved.name = cursor.name
  rest : moved.rest = cursor.rest
  places : ∃ passed, cursor.place = Place.start.advance passed ∧ moved.place = base.advance passed

inductive NextDisplaced (base : Place) :
    Except Malformed (Region × Cursor) → Except Malformed (Region × Cursor) → Prop
  | ok {form : Form} {position movedPosition : Position} {lines : List Bytes} {trailing : Bool}
      {after movedAfter : Cursor} : after.Displaced base movedAfter →
      NextDisplaced base (.ok (⟨form, position, lines, trailing⟩, after))
        (.ok (⟨form, movedPosition, lines, trailing⟩, movedAfter))
  | error {error moved : Malformed} : error.Displaced base moved →
      NextDisplaced base (.error error) (.error moved)

namespace Displaced

variable {base : Place} {cursor moved : Cursor} (displaced : cursor.Displaced base moved)

include displaced

theorem peek_eq : moved.peek = cursor.peek := by
  rw [Cursor.peek_eq, Cursor.peek_eq, displaced.rest]

theorem places_advance (used : Bytes) :
    ∃ passed, cursor.place.advance used = Place.start.advance passed ∧
      moved.place.advance used = base.advance passed := by
  obtain ⟨passed, place, movedPlace⟩ := displaced.places
  exact ⟨passed ++ used, by rw [place, Place.advance_append],
    by rw [movedPlace, Place.advance_append]⟩

theorem moveTo (rest : Bytes) : (cursor.moveTo rest).Displaced base (moved.moveTo rest) where
  name := displaced.name
  rest := rfl
  places := by
    simp only [Cursor.moveTo, Place.advanceTo, displaced.rest]
    exact displaced.places_advance _

theorem skipLine : cursor.skipLine.Displaced base moved.skipLine where
  name := displaced.name
  rest := congrArg Bytes.afterLine displaced.rest
  places := by
    simp only [Cursor.skipLine, displaced.rest]
    exact displaced.places_advance _

theorem errorAt (spot : Bytes) (reason : Malformed.Reason) :
    Malformed.Displaced base ⟨cursor.positionOf spot, reason⟩
      ⟨moved.positionOf spot, reason⟩ where
  reason := rfl
  positions := by
    simp only [positionOf, Place.advanceTo, displaced.rest, displaced.name]
    obtain ⟨passed, place, movedPlace⟩ := displaced.places_advance _
    exact ⟨_, passed, congrArg _ place, congrArg _ movedPlace⟩

theorem errorHere (reason : Malformed.Reason) :
    Malformed.Displaced base ⟨cursor.position, reason⟩ ⟨moved.position, reason⟩ where
  reason := rfl
  positions := by
    obtain ⟨passed, place, movedPlace⟩ := displaced.places
    simp only [position, displaced.name, place, movedPlace]
    exact ⟨_, passed, rfl, rfl⟩

theorem nextBlock : NextDisplaced base cursor.nextBlock moved.nextBlock := by
  simp only [Cursor.nextBlock, displaced.rest]
  split
  · exact .error (displaced.errorHere .unterminatedBlock)
  · exact .ok (displaced.moveTo _)

theorem nextAttribute : NextDisplaced base cursor.nextAttribute moved.nextAttribute := by
  unfold Cursor.nextAttribute
  rw [displaced.rest]
  cases (Attribute.body? cursor.rest).bind Attribute.literal? with
  | none => exact .ok displaced
  | some value =>
      dsimp only
      cases Attribute.read value with
      | error problem => exact .error (displaced.errorAt _ _)
      | ok read => exact .ok (displaced.moveTo _)

theorem next : NextDisplaced base cursor.next moved.next := by
  simp only [Cursor.next, displaced.peek_eq]
  cases cursor.peek with
  | endOfInput => exact .ok displaced
  | code => exact .ok displaced
  | blank => exact .ok displaced.skipLine
  | lineComment =>
      simp only [displaced.rest]
      exact .ok displaced.skipLine
  | blockComment => exact displaced.nextBlock
  | docAttribute => exact displaced.nextAttribute

end Displaced

end Cursor

namespace Block.Scan

structure Displaced (base : Place) (older : List Bytes) (scan moved : Scan) : Prop where
  active : moved.active = scan.active
  lines : moved.lines = scan.lines ++ older
  cursor : scan.cursor.Displaced base moved.cursor

inductive TurnDisplaced (base : Place) (older : List Bytes) : Turn → Turn → Prop
  | goOn {next movedNext : Scan} : next.Displaced base older movedNext →
      TurnDisplaced base older (.goOn next) (.goOn movedNext)
  | endOfInput : TurnDisplaced base older .endOfInput .endOfInput
  | inFront : TurnDisplaced base older .inFront .inFront
  | behind {region movedRegion : Region} {after movedAfter : Cursor} :
      movedRegion.lines = region.lines →
      TurnDisplaced base older (.behind region after) (.behind movedRegion movedAfter)
  | fail {error moved : Malformed} : error.Displaced base moved →
      TurnDisplaced base older (.fail error) (.fail moved)

inductive ResultDisplaced (base : Place) (older : List Bytes) :
    Except Malformed (List Bytes) → Except Malformed (List Bytes) → Prop
  | ok (lines : List Bytes) : ResultDisplaced base older (.ok lines) (.ok (lines ++ older))
  | error {error moved : Malformed} : error.Displaced base moved →
      ResultDisplaced base older (.error error) (.error moved)

namespace Displaced

variable {base : Place} {older : List Bytes} {scan moved : Scan}

theorem passDoc (displaced : scan.Displaced base older moved) {region movedRegion : Region}
    {after movedAfter : Cursor} (form : movedRegion.form = region.form)
    (lines : movedRegion.lines = region.lines) (behind : after.Displaced base movedAfter) :
    (scan.passDoc region after).Displaced base older (moved.passDoc movedRegion movedAfter) where
  active := congrArg some form
  lines := by simp only [Scan.passDoc, lines, displaced.lines, List.append_assoc]
  cursor := behind

theorem passBlank (displaced : scan.Displaced base older moved) {after movedAfter : Cursor}
    (behind : after.Displaced base movedAfter) :
    (scan.passBlank after).Displaced base older (moved.passBlank movedAfter) where
  active := displaced.active
  lines := by
    simp only [Scan.passBlank, displaced.active, displaced.lines]
    split
    · rfl
    · rfl
  cursor := behind

theorem turn (displaced : scan.Displaced base older moved) :
    TurnDisplaced base older scan.turn moved.turn := by
  have reads := displaced.cursor.next
  have changes : moved.changesForm = scan.changesForm := by
    rw [changesForm, changesForm, displaced.active, displaced.cursor.peek_eq]
  unfold Scan.turn
  rw [changes]
  generalize scan.cursor.next = first at reads ⊢
  generalize moved.cursor.next = second at reads ⊢
  split
  · exact .inFront
  · cases reads with
    | error faults => exact .fail faults
    | @ok form _ _ _ _ _ _ behind =>
        cases form with
        | endOfInput => exact .endOfInput
        | code => exact .inFront
        | blank => exact .goOn (displaced.passBlank behind)
        | lineComment | blockComment | docAttribute =>
            dsimp only
            split
            · exact .behind rfl
            · exact .goOn (displaced.passDoc rfl rfl behind)

theorem result (displaced : scan.Displaced base older moved) :
    ResultDisplaced base older scan.result moved.result := by
  generalize size : scan.cursor.rest.length = length
  induction length using Nat.strongRecOn generalizing scan moved with
  | ind length ih =>
      have turns := displaced.turn
      rw [result_eq scan, result_eq moved]
      generalize turned : scan.turn = first at turns ⊢
      generalize moved.turn = second at turns ⊢
      cases turns with
      | goOn next => exact ih _ (size ▸ goOn_length turned) next rfl
      | endOfInput =>
          rw [displaced.lines]
          exact .ok _
      | inFront =>
          rw [displaced.lines]
          exact .ok _
      | behind lines =>
          simp only [displaced.lines, lines, ← List.append_assoc]
          exact .ok _
      | fail faults => exact .error faults

end Displaced

end Block.Scan

end DocPrologue
