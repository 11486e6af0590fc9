import DocPrologue.Proofs.Returns
import DocPrologue.Proofs.Scan

/-!
Sources with other line ends. Two scans whose cursors stand at the same spot of two sources that
differ in line ends only take the same turns, so the prologues are the same, or reading them fails
in the same line and column.
-/

namespace DocPrologue

def Place.SameSpot (first second : Place) : Prop :=
  first.line = second.line ∧ first.column = second.column

namespace DropsReturns

theorem of_dropReturns {text : Bytes} (clean : Byte.cr ∉ Bytes.dropReturns text) :
    DropsReturns text (Bytes.dropReturns text) := by
  fun_induction Bytes.dropReturns text with
  | case1 => exact .nil
  | case2 byte rest ends ih =>
      obtain ⟨rfl, feed⟩ := ends
      obtain ⟨after, rfl⟩ : ∃ after, rest = Byte.lf :: after := by
        cases rest with
        | nil => contradiction
        | cons first after => exact ⟨after, by rw [Option.some.inj feed]⟩
      -- The text from the line feed on drops its returns; the return goes with the line feed.
      cases ih clean with
      | byte noReturn tail => exact .lineEnd tail
  | case3 byte rest stays ih =>
      simp only [List.mem_cons, not_or] at clean
      exact .byte (Ne.symm clean.1) (ih clean.2)

variable {text plain : Bytes}

theorem sameSpot_advance (drops : DropsReturns text plain) {place plainPlace : Place}
    (same : place.SameSpot plainPlace) :
    (place.advance text).SameSpot (plainPlace.advance plain) := by
  induction drops generalizing place plainPlace with
  | nil => exact same
  | @byte byte text plain noReturn _ ih =>
      apply ih
      unfold Place.SameSpot Place.step
      by_cases feed : byte = Byte.lf
      · rw [if_pos feed, if_pos feed]
        exact ⟨congrArg (· + 1) same.1, rfl⟩
      · rw [if_neg feed, if_neg feed]
        exact ⟨same.1, congrArg (· + 1) same.2⟩
  | lineEnd _ ih => exact ih ⟨congrArg (· + 1) same.1, rfl⟩

end DropsReturns

/-- The texts differ only in whether a carriage return stands in front of each line feed, and hold
no other carriage return. -/
def SameLines (first second : Bytes) : Prop :=
  ∃ plain, DropsReturns first plain ∧ DropsReturns second plain

theorem sameLines_iff {first second : Bytes} :
    SameLines first second ↔
      Bytes.dropReturns first = Bytes.dropReturns second ∧ Byte.cr ∉ Bytes.dropReturns first := by
  constructor
  · rintro ⟨plain, firstDrops, secondDrops⟩
    rw [firstDrops.dropReturns_eq, secondDrops.dropReturns_eq]
    exact ⟨rfl, firstDrops.not_mem⟩
  · rintro ⟨same, clean⟩
    exact ⟨_, .of_dropReturns clean, same ▸ .of_dropReturns (same ▸ clean)⟩

namespace Malformed

def Reason.isBadHex : Reason → Bool
  | .badAttribute (.literal fault) => fault.isBadHex
  | _ => false

structure Alike (error plain : Malformed) : Prop where
  file : error.position.file = plain.position.file
  line : error.position.line = plain.position.line
  column : error.position.column = plain.position.column
  reason : error.reason = plain.reason ∨
    error.reason.isBadHex = true ∧ plain.reason.isBadHex = true

theorem Alike.symm {error plain : Malformed} (alike : Alike error plain) : Alike plain error :=
  ⟨alike.file.symm, alike.line.symm, alike.column.symm, alike.reason.imp Eq.symm And.symm⟩

theorem Alike.trans {first second third : Malformed} (front : Alike first second)
    (back : Alike second third) : Alike first third := by
  refine ⟨front.file.trans back.file, front.line.trans back.line,
    front.column.trans back.column, ?_⟩
  rcases front.reason with same | ⟨bad, alsoBad⟩
  · rw [same]
    exact back.reason
  · rcases back.reason with same | ⟨-, lastBad⟩
    · exact .inr ⟨bad, same ▸ alsoBad⟩
    · exact .inr ⟨bad, lastBad⟩

end Malformed

theorem Attribute.Fault.Similar.reason {first second : Fault} (similar : Similar first second) :
    Malformed.Reason.badAttribute first = .badAttribute second ∨
      (Malformed.Reason.badAttribute first).isBadHex = true ∧
        (Malformed.Reason.badAttribute second).isBadHex = true := by
  cases similar with
  | same fault => exact .inl rfl
  | literal similar =>
      rcases similar with rfl | bad
      · exact .inl rfl
      · exact .inr bad

inductive OutcomeAlike {α : Type} : Except Malformed α → Except Malformed α → Prop
  | ok (value : α) : OutcomeAlike (.ok value) (.ok value)
  | error {error plain : Malformed} : error.Alike plain → OutcomeAlike (.error error) (.error plain)

namespace OutcomeAlike

variable {α : Type} {first second third : Except Malformed α}

theorem symm (alike : OutcomeAlike first second) : OutcomeAlike second first := by
  cases alike with
  | ok value => exact .ok value
  | error errors => exact .error errors.symm

theorem trans (front : OutcomeAlike first second) (back : OutcomeAlike second third) :
    OutcomeAlike first third := by
  cases front with
  | ok value => exact back
  | error errors =>
      cases back with
      | error others => exact .error (errors.trans others)

end OutcomeAlike

namespace Cursor

structure Alike (cursor plain : Cursor) : Prop where
  name : cursor.name = plain.name
  spot : cursor.place.SameSpot plain.place
  rest : DropsReturns cursor.rest plain.rest

inductive NextAlike :
    Except Malformed (Region × Cursor) → Except Malformed (Region × Cursor) → Prop
  | ok {region plainRegion : Region} {after plainAfter : Cursor} :
      region.form = plainRegion.form → region.lines = plainRegion.lines →
      region.trailing = plainRegion.trailing → after.Alike plainAfter →
      NextAlike (.ok (region, after)) (.ok (plainRegion, plainAfter))
  | error {error plain : Malformed} : error.Alike plain → NextAlike (.error error) (.error plain)

namespace Alike

variable {cursor plain : Cursor} (alike : cursor.Alike plain)

include alike

theorem sameSpot {spot plainSpot : Bytes}
    (aligned : Aligned cursor.rest plain.rest spot plainSpot) :
    (cursor.place.advanceTo cursor.rest spot).SameSpot
      (plain.place.advanceTo plain.rest plainSpot) := by
  obtain ⟨used, plainUsed, shape, plainShape, front, -⟩ := aligned
  rw [shape, plainShape, Place.advanceTo_append, Place.advanceTo_append]
  exact front.sameSpot_advance alike.spot

theorem moveTo {rest plainRest : Bytes} (aligned : Aligned cursor.rest plain.rest rest plainRest) :
    (cursor.moveTo rest).Alike (plain.moveTo plainRest) :=
  ⟨alike.name, alike.sameSpot aligned, aligned.drops⟩

theorem skipLine : cursor.skipLine.Alike plain.skipLine :=
  ⟨alike.name, alike.rest.firstLine.2.1.sameSpot_advance alike.spot, alike.rest.firstLine.2.2⟩

theorem errorAt {spot plainSpot : Bytes} {reason plainReason : Malformed.Reason}
    (aligned : Aligned cursor.rest plain.rest spot plainSpot)
    (similar : reason = plainReason ∨ reason.isBadHex = true ∧ plainReason.isBadHex = true) :
    Malformed.Alike ⟨cursor.positionOf spot, reason⟩ ⟨plain.positionOf plainSpot, plainReason⟩ := by
  obtain ⟨sameLine, sameColumn⟩ := alike.sameSpot aligned
  exact ⟨alike.name, congrArg Int.ofNat sameLine, congrArg Int.ofNat sameColumn, similar⟩

theorem peek_eq : cursor.peek = plain.peek := by
  have opened := isSome_eq_of_rel alike.rest.rel_body?
  have lineMarked := alike.rest.startsWith_eq Comment.lineMark (by decide) (by decide)
  have blockMarked := alike.rest.startsWith_eq Comment.blockMark (by decide) (by decide)
  rw [Cursor.peek_eq, Cursor.peek_eq]
  simp only [alike.rest.eq_nil_iff, alike.rest.line_eq, opened, lineMarked, blockMarked]

theorem complete (form : Form) (lines : List Bytes) {after plainAfter : Bytes}
    (aligned : Aligned cursor.rest plain.rest after plainAfter) :
    NextAlike (.ok (cursor.complete form lines after))
      (.ok (plain.complete form lines plainAfter)) := by
  refine .ok rfl rfl ?_ (alike.moveTo (aligned.trans aligned.drops.aligned_afterLine))
  simp only [aligned.drops.line_eq]

theorem errorHere (reason : Malformed.Reason) :
    Malformed.Alike ⟨cursor.position, reason⟩ ⟨plain.position, reason⟩ :=
  ⟨alike.name, congrArg Int.ofNat alike.spot.1, congrArg Int.ofNat alike.spot.2, .inl rfl⟩

theorem nextBlock (block : cursor.peek = .blockComment) :
    NextAlike cursor.nextBlock plain.nextBlock := by
  have marked := (peek_eq_blockComment_iff cursor).mp block
  obtain ⟨text, shape⟩ := Bytes.startsWith_iff.mp marked
  rw [alike.rest.startsWith_eq Comment.blockMark (by decide) (by decide)] at marked
  obtain ⟨plainText, plainShape⟩ := Bytes.startsWith_iff.mp marked
  have opened := alike.rest.rel_after? Comment.blockMark (by decide) (by decide)
  rw [Bytes.after?_eq_some_iff.mpr shape, Bytes.after?_eq_some_iff.mpr plainShape] at opened
  cases opened with
  | some aligned =>
      have closes := aligned.drops.rel_closeFrom 0 0 0
      unfold Cursor.nextBlock Comment.bodyLength?
      have dropped : cursor.rest.drop Comment.blockMark.length = text := by
        rw [shape, List.drop_left]
      have plainDropped : plain.rest.drop Comment.blockMark.length = plainText := by
        rw [plainShape, List.drop_left]
      simp only [dropped, plainDropped]
      generalize Comment.closeFrom 0 0 text = first at closes ⊢
      generalize Comment.closeFrom 0 0 plainText = second at closes ⊢
      cases closes with
      | none => exact .error (alike.errorHere .unterminatedBlock)
      | some found =>
          obtain ⟨body, tail, plainBody, plainTail, rfl, rfl, rfl, rfl, inside, outside⟩ := found
          simp only [Nat.zero_add, List.take_left, inside.blockLines_eq, ← List.drop_drop,
            List.drop_left]
          refine alike.complete .blockComment _ (aligned.trans ?_)
          exact ⟨body ++ [Byte.star, Byte.slash], plainBody ++ [Byte.star, Byte.slash],
            by rw [List.append_assoc]; rfl, by rw [List.append_assoc]; rfl,
            inside.append (.of_not_mem (by decide)), outside⟩

theorem nextAttribute : NextAlike cursor.nextAttribute plain.nextAttribute := by
  have valued : Option.Rel (Aligned cursor.rest plain.rest)
      ((Attribute.body? cursor.rest).bind Attribute.literal?)
      ((Attribute.body? plain.rest).bind Attribute.literal?) := by
    refine rel_bind alike.rest.rel_body? ?_
    intro body plainBody aligned
    exact rel_mono (fun _ _ => aligned.trans) aligned.drops.rel_literal?
  unfold Cursor.nextAttribute
  generalize (Attribute.body? cursor.rest).bind Attribute.literal? = first at valued ⊢
  generalize (Attribute.body? plain.rest).bind Attribute.literal? = second at valued ⊢
  cases valued with
  | none => exact .ok rfl rfl rfl alike
  | @some value plainValue aligned =>
      have reads := aligned.drops.readAttribute
      simp only
      generalize Attribute.read value = first at reads ⊢
      generalize Attribute.read plainValue = second at reads ⊢
      cases reads with
      | ok text behind => exact alike.complete .docAttribute _ (aligned.trans behind)
      | error faults =>
          exact .error (alike.errorAt (aligned.trans faults.2) faults.1.reason)

theorem next : NextAlike cursor.next plain.next := by
  have form := alike.peek_eq
  unfold Cursor.next
  rw [← form]
  cases peeked : cursor.peek with
  | endOfInput => exact .ok rfl rfl rfl alike
  | code => exact .ok rfl rfl rfl alike
  | blank => exact .ok rfl rfl rfl alike.skipLine
  | lineComment =>
      simp only [alike.rest.line_eq]
      exact .ok rfl rfl rfl alike.skipLine
  | blockComment => exact alike.nextBlock peeked
  | docAttribute => exact alike.nextAttribute

theorem skipInterpreter : cursor.skipInterpreter.Alike plain.skipInterpreter := by
  have marked := alike.rest.startsWith_eq Attribute.mark (by decide) (by decide)
  have opened := isSome_eq_of_rel alike.rest.rel_body?
  unfold Cursor.skipInterpreter
  simp only [← Option.isNone_iff_eq_none, ← Option.not_isSome, marked, opened]
  split
  · exact alike.skipLine
  · exact alike

end Alike

theorem ofSource_alike (name : Bytes) {text plain : Bytes} (drops : DropsReturns text plain) :
    (ofSource name text).Alike (ofSource name plain) := by
  have marks := drops.rel_after? byteOrderMark (by decide) (by decide)
  unfold ofSource
  generalize Bytes.after? byteOrderMark text = first at marks ⊢
  generalize Bytes.after? byteOrderMark plain = second at marks ⊢
  cases marks with
  | none => exact Alike.skipInterpreter ⟨rfl, ⟨rfl, rfl⟩, drops⟩
  | some aligned => exact Alike.skipInterpreter ⟨rfl, ⟨rfl, rfl⟩, aligned.drops⟩

end Cursor

namespace Block

namespace Scan

structure Alike (scan plain : Scan) : Prop where
  active : scan.active = plain.active
  lines : scan.lines = plain.lines
  cursor : scan.cursor.Alike plain.cursor

inductive TurnAlike : Turn → Turn → Prop
  | goOn {next plainNext : Scan} : next.Alike plainNext → TurnAlike (.goOn next) (.goOn plainNext)
  | endOfInput : TurnAlike .endOfInput .endOfInput
  | inFront : TurnAlike .inFront .inFront
  | behind {region plainRegion : Region} {after plainAfter : Cursor} :
      region.lines = plainRegion.lines →
      TurnAlike (.behind region after) (.behind plainRegion plainAfter)
  | fail {error plain : Malformed} : error.Alike plain → TurnAlike (.fail error) (.fail plain)

variable {scan plain : Scan}

theorem Alike.turn (alike : scan.Alike plain) : TurnAlike scan.turn plain.turn := by
  have reads := alike.cursor.next
  have changes : scan.changesForm = plain.changesForm := by
    rw [changesForm, changesForm, alike.active, alike.cursor.peek_eq]
  unfold Scan.turn
  rw [changes]
  generalize scan.cursor.next = first at reads ⊢
  generalize plain.cursor.next = second at reads ⊢
  split
  · exact .inFront
  · cases reads with
    | error errors => exact .fail errors
    | @ok region plainRegion after plainAfter form lines trailing behind =>
        simp only [form, trailing]
        have passedDoc : (scan.passDoc region after).Alike (plain.passDoc plainRegion plainAfter) :=
          ⟨congrArg some form, by simp only [passDoc, lines, alike.lines], behind⟩
        have passedBlank : (scan.passBlank after).Alike (plain.passBlank plainAfter) :=
          ⟨alike.active, by simp only [passBlank, alike.active, alike.lines], behind⟩
        cases plainRegion.form with
        | endOfInput => exact .endOfInput
        | code => exact .inFront
        | blank => exact .goOn passedBlank
        | lineComment | blockComment | docAttribute =>
            simp only
            split
            · exact .behind lines
            · exact .goOn passedDoc

theorem Alike.result (alike : scan.Alike plain) : OutcomeAlike scan.result plain.result := by
  generalize size : scan.cursor.rest.length = length
  induction length using Nat.strongRecOn generalizing scan plain with
  | ind length ih =>
      have turns := alike.turn
      rw [result_eq scan, result_eq plain]
      generalize turned : scan.turn = first at turns ⊢
      generalize plain.turn = second at turns ⊢
      cases turns with
      | goOn next => exact ih _ (size ▸ goOn_length turned) next rfl
      | endOfInput =>
          rw [alike.lines]
          exact .ok _
      | inFront =>
          rw [alike.lines]
          exact .ok _
      | behind lines =>
          simp only [alike.lines, lines]
          exact .ok _
      | fail errors => exact .error errors

end Scan

theorem extract_alike (name : Bytes) {text plain : Bytes} (drops : DropsReturns text plain) :
    OutcomeAlike (extract name text) (extract name plain) := by
  have starts : (Scan.start name text).Alike (Scan.start name plain) :=
    ⟨rfl, rfl, Cursor.ofSource_alike name drops⟩
  have results := starts.result
  rw [Scan.extract_eq, Scan.extract_eq]
  generalize (Scan.start name text).result = first at results ⊢
  generalize (Scan.start name plain).result = second at results ⊢
  cases results with
  | ok lines => exact .ok _
  | error errors => exact .error errors

/-- Sources that differ in line ends only have the same prologue, or fail in the same line and
column. -/
theorem extract_sameLines (name : Bytes) {first second : Bytes} (same : SameLines first second) :
    (∃ block, extract name first = .ok block ∧ extract name second = .ok block) ∨
      ∃ error other, extract name first = .error error ∧ extract name second = .error other ∧
        error.Alike other := by
  obtain ⟨plain, firstDrops, secondDrops⟩ := same
  have both := (extract_alike name firstDrops).trans (extract_alike name secondDrops).symm
  generalize extract name first = firstOutcome at both ⊢
  generalize extract name second = secondOutcome at both ⊢
  cases both with
  | ok block => exact .inl ⟨block, rfl, rfl⟩
  | error errors => exact .inr ⟨_, _, rfl, rfl, errors⟩

theorem extract_sameLines_attribute :
    let first : Bytes := Text.utf8 "#![doc =\r\n\"a\r\nb\"]\r\n"
    let second : Bytes := Text.utf8 "#![doc =\n\"a\r\nb\"]\n"
    SameLines first second ∧
      ((∃ block, extract [] first = .ok block ∧ extract [] second = .ok block) ∨
        ∃ error other, extract [] first = .error error ∧ extract [] second = .error other ∧
          error.Alike other) := by
  intro first second
  have same : SameLines first second := sameLines_iff.mpr ⟨by decide, by decide⟩
  exact ⟨same, extract_sameLines [] same⟩

end Block

end DocPrologue
