import DocPrologue.Comment
import DocPrologue.Region

/-!
A cursor stands at the start of a physical line of a source. It tells the form of that line and
reads the region that starts there; reading documentation or a blank line moves it on.
-/

namespace DocPrologue

open Text (isBlank)

structure Cursor where
  name : Bytes
  place : Place
  rest : Bytes
deriving DecidableEq, Repr

namespace Cursor

def byteOrderMark : Bytes := [0xEF, 0xBB, 0xBF]

def skipLine (cursor : Cursor) : Cursor :=
  ⟨cursor.name, cursor.place.advance (Bytes.wholeLine cursor.rest), Bytes.afterLine cursor.rest⟩

def skipInterpreter (cursor : Cursor) : Cursor :=
  if Bytes.startsWith Attribute.mark cursor.rest ∧ Attribute.body? cursor.rest = none then
    cursor.skipLine
  else cursor

def ofSource (name source : Bytes) : Cursor :=
  match Bytes.after? byteOrderMark source with
  | some rest => skipInterpreter ⟨name, Place.start.advance byteOrderMark, rest⟩
  | none => skipInterpreter ⟨name, Place.start, source⟩

def position (cursor : Cursor) : Position := .ofPlace cursor.name cursor.place

def positionOf (cursor : Cursor) (spot : Bytes) : Position :=
  .ofPlace cursor.name (cursor.place.advanceTo cursor.rest spot)

def moveTo (cursor : Cursor) (rest : Bytes) : Cursor :=
  ⟨cursor.name, cursor.place.advanceTo cursor.rest rest, rest⟩

/-- The form of the next line, told by how it starts. Every inner attribute counts as one that
carries documentation; reading it may find that it is code. -/
def peek (cursor : Cursor) : Form :=
  if cursor.rest.isEmpty then .endOfInput
  else
    let line := Bytes.line cursor.rest
    if isBlank line then .blank
    else if Bytes.startsWith Comment.lineMark line then .lineComment
    else if Bytes.startsWith Comment.blockMark line then .blockComment
    else if Bytes.startsWith Attribute.mark line ∧ (Attribute.body? cursor.rest).isSome then
      .docAttribute
    else .code

def complete (cursor : Cursor) (form : Form) (lines : List Bytes) (after : Bytes) :
    Region × Cursor :=
  (⟨form, cursor.position, lines, !isBlank (Bytes.line after)⟩,
    cursor.moveTo (Bytes.afterLine after))

def nextBlock (cursor : Cursor) : Except Malformed (Region × Cursor) :=
  let text := cursor.rest.drop Comment.blockMark.length
  match Comment.bodyLength? text with
  | none => .error ⟨cursor.position, .unterminatedBlock⟩
  | some length =>
    .ok (cursor.complete .blockComment (Comment.blockLines (text.take length))
      (text.drop (length + 2)))

def nextAttribute (cursor : Cursor) : Except Malformed (Region × Cursor) :=
  match (Attribute.body? cursor.rest).bind Attribute.literal? with
  | none => .ok (⟨.code, cursor.position, [], false⟩, cursor)
  | some value =>
    match Attribute.read value with
    | .error (fault, spot) => .error ⟨cursor.positionOf spot, .badAttribute fault⟩
    | .ok (text, after) => .ok (cursor.complete .docAttribute (Bytes.split Byte.lf text) after)

def next (cursor : Cursor) : Except Malformed (Region × Cursor) :=
  match cursor.peek with
  | .endOfInput => .ok (⟨.endOfInput, cursor.position, [], false⟩, cursor)
  | .code => .ok (⟨.code, cursor.position, [], false⟩, cursor)
  | .blank => .ok (⟨.blank, cursor.position, [], false⟩, cursor.skipLine)
  | .lineComment =>
    let text := Comment.lineText ((Bytes.line cursor.rest).drop Comment.lineMark.length)
    .ok (⟨.lineComment, cursor.position, [text], false⟩, cursor.skipLine)
  | .blockComment => cursor.nextBlock
  | .docAttribute => cursor.nextAttribute

theorem rest_ne_nil {cursor : Cursor} (more : cursor.peek ≠ .endOfInput) : cursor.rest ≠ [] := by
  intro empty
  simp [peek, empty] at more

theorem nextBlock_length {cursor after : Cursor} {region : Region} (more : cursor.rest ≠ [])
    (done : cursor.nextBlock = .ok (region, after)) : after.rest.length < cursor.rest.length := by
  have positive := List.length_pos_iff.mpr more
  simp only [nextBlock] at done
  split at done
  · contradiction
  · rename_i length _
    simp only [Except.ok.injEq, complete, moveTo, Prod.mk.injEq] at done
    rw [← done.2]
    have bound := Bytes.afterLine_length_le
      ((cursor.rest.drop Comment.blockMark.length).drop (length + 2))
    simp only [List.length_drop] at bound
    have mark : Comment.blockMark.length = 3 := rfl
    simp only
    omega

theorem nextAttribute_length {cursor after : Cursor} {region : Region}
    (done : cursor.nextAttribute = .ok (region, after)) (doc : region.form ≠ .code) :
    after.rest.length < cursor.rest.length := by
  unfold nextAttribute at done
  split at done
  · simp only [Except.ok.injEq, Prod.mk.injEq] at done
    exact absurd (by rw [← done.1]) doc
  · rename_i value found
    split at done
    · contradiction
    · rename_i text rest read
      simp only [Except.ok.injEq, complete, moveTo, Prod.mk.injEq] at done
      simp only [Option.bind_eq_some_iff] at found
      obtain ⟨body, opened, valued⟩ := found
      have first := Attribute.body?_length opened
      have second := Attribute.literal?_length_le valued
      have third := Attribute.read_length read
      have fourth := Bytes.afterLine_length_le rest
      rw [← done.2]
      simp only
      omega

theorem next_length {cursor after : Cursor} {region : Region}
    (done : cursor.next = .ok (region, after)) (passed : region.form ≠ .endOfInput)
    (isRegion : region.form ≠ .code) : after.rest.length < cursor.rest.length := by
  unfold next at done
  split at done
  · simp only [Except.ok.injEq, Prod.mk.injEq] at done
    exact absurd (by rw [← done.1]) passed
  · simp only [Except.ok.injEq, Prod.mk.injEq] at done
    exact absurd (by rw [← done.1]) isRegion
  · rename_i form
    simp only [Except.ok.injEq, Prod.mk.injEq, skipLine] at done
    rw [← done.2]
    exact Bytes.afterLine_length_lt (rest_ne_nil (by simp [form]))
  · rename_i form
    simp only [Except.ok.injEq, Prod.mk.injEq, skipLine] at done
    rw [← done.2]
    exact Bytes.afterLine_length_lt (rest_ne_nil (by simp [form]))
  · rename_i form
    exact nextBlock_length (rest_ne_nil (by simp [form])) done
  · exact nextAttribute_length done isRegion

end Cursor

end DocPrologue
