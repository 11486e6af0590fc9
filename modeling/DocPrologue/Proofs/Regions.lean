import DocPrologue.Proofs.Readers

/-!
What reading a region does. `Passage` lists, form by form, the region that a cursor reads and the
cursor it becomes; a cursor reads a region exactly along such a passage. `Takes` gives the text that
a region takes, which ends with a line, and `Stands` what a cursor has passed of its source.
-/

namespace DocPrologue.Cursor

open Text (isBlank)

inductive Passage (cursor : Cursor) : Region → Cursor → Prop
  | endOfInput : cursor.peek = .endOfInput →
      Passage cursor ⟨.endOfInput, cursor.position, [], false⟩ cursor
  | code : cursor.peek = .code → Passage cursor ⟨.code, cursor.position, [], false⟩ cursor
  | otherAttribute : cursor.peek = .docAttribute →
      (Attribute.body? cursor.rest).bind Attribute.literal? = none →
      Passage cursor ⟨.code, cursor.position, [], false⟩ cursor
  | blank : cursor.peek = .blank →
      Passage cursor ⟨.blank, cursor.position, [], false⟩ cursor.skipLine
  | lineComment : cursor.peek = .lineComment →
      Passage cursor ⟨.lineComment, cursor.position,
        [Comment.lineText ((Bytes.line cursor.rest).drop Comment.lineMark.length)], false⟩
        cursor.skipLine
  | blockComment {body tail : Bytes} :
      cursor.rest = Comment.blockMark ++ (body ++ Byte.star :: Byte.slash :: tail) →
      Comment.bodyLength? (body ++ Byte.star :: Byte.slash :: tail) = some body.length →
      Passage cursor ⟨.blockComment, cursor.position, Comment.blockLines body,
        !isBlank (Bytes.line tail)⟩ (cursor.moveTo (Bytes.afterLine tail))
  | docAttribute {body value text tail : Bytes} :
      Attribute.body? cursor.rest = some body → Attribute.literal? body = some value →
      Attribute.read value = .ok (text, tail) →
      Passage cursor ⟨.docAttribute, cursor.position, Bytes.split Byte.lf text,
        !isBlank (Bytes.line tail)⟩ (cursor.moveTo (Bytes.afterLine tail))

theorem nextBlock_eq_ok_iff {cursor after : Cursor} {region : Region}
    (block : cursor.peek = .blockComment) :
    cursor.nextBlock = .ok (region, after) ↔
      ∃ body tail, cursor.rest = Comment.blockMark ++ (body ++ Byte.star :: Byte.slash :: tail) ∧
        Comment.bodyLength? (body ++ Byte.star :: Byte.slash :: tail) = some body.length ∧
        (region, after) = cursor.complete .blockComment (Comment.blockLines body) tail := by
  obtain ⟨text, shape⟩ := Bytes.startsWith_iff.mp ((peek_eq_blockComment_iff cursor).mp block)
  have dropped : cursor.rest.drop Comment.blockMark.length = text := by
    rw [shape, List.drop_left]
  have cut (body tail : Bytes) :
      (body ++ Byte.star :: Byte.slash :: tail).take body.length = body ∧
        (body ++ Byte.star :: Byte.slash :: tail).drop (body.length + 2) = tail := by
    simp [List.drop_append]
  simp only [nextBlock, dropped]
  constructor
  · intro done
    split at done
    · contradiction
    · rename_i length found
      obtain ⟨body, tail, rfl, placed, -⟩ := Comment.closeFrom_split found
      rw [Nat.zero_add] at placed
      subst placed
      rw [(cut body tail).1, (cut body tail).2, Except.ok.injEq] at done
      exact ⟨body, tail, shape, found, done.symm⟩
  · rintro ⟨body, tail, shape', found, same⟩
    have equal := List.append_cancel_left (shape.symm.trans shape')
    subst equal
    rw [found]
    simp only
    rw [(cut body tail).1, (cut body tail).2, same]

theorem nextAttribute_eq_ok_iff {cursor after : Cursor} {region : Region} :
    cursor.nextAttribute = .ok (region, after) ↔
      ((Attribute.body? cursor.rest).bind Attribute.literal? = none ∧
        (region, after) = (⟨.code, cursor.position, [], false⟩, cursor)) ∨
      ∃ body value text tail, Attribute.body? cursor.rest = some body ∧
        Attribute.literal? body = some value ∧ Attribute.read value = .ok (text, tail) ∧
        (region, after) = cursor.complete .docAttribute (Bytes.split Byte.lf text) tail := by
  unfold nextAttribute
  constructor
  · intro done
    split at done
    · rename_i absent
      rw [Except.ok.injEq] at done
      exact .inl ⟨absent, done.symm⟩
    · rename_i value found
      obtain ⟨body, opened, literal⟩ := Option.bind_eq_some_iff.mp found
      split at done
      · contradiction
      · rename_i text tail read
        rw [Except.ok.injEq] at done
        exact .inr ⟨body, value, text, tail, opened, literal, read, done.symm⟩
  · rintro (⟨absent, same⟩ | ⟨body, value, text, tail, opened, literal, read, same⟩)
    · rw [absent, same]
    · rw [opened, Option.bind_some, literal]
      simp only
      rw [read, same]

theorem passage_of_next {cursor after : Cursor} {region : Region}
    (done : cursor.next = .ok (region, after)) : Passage cursor region after := by
  unfold next at done
  split at done
  · rename_i form
    obtain ⟨rfl, rfl⟩ := Prod.mk.inj (Except.ok.inj done)
    exact .endOfInput form
  · rename_i form
    obtain ⟨rfl, rfl⟩ := Prod.mk.inj (Except.ok.inj done)
    exact .code form
  · rename_i form
    obtain ⟨rfl, rfl⟩ := Prod.mk.inj (Except.ok.inj done)
    exact .blank form
  · rename_i form
    obtain ⟨rfl, rfl⟩ := Prod.mk.inj (Except.ok.inj done)
    exact .lineComment form
  · rename_i form
    obtain ⟨body, tail, shape, found, same⟩ := (nextBlock_eq_ok_iff form).mp done
    obtain ⟨rfl, rfl⟩ := Prod.mk.inj same
    exact .blockComment shape found
  · rename_i form
    rcases nextAttribute_eq_ok_iff.mp done with
      ⟨absent, same⟩ | ⟨body, value, text, tail, opened, literal, read, same⟩
    · obtain ⟨rfl, rfl⟩ := Prod.mk.inj same
      exact .otherAttribute form absent
    · obtain ⟨rfl, rfl⟩ := Prod.mk.inj same
      exact .docAttribute opened literal read

theorem next_of_passage {cursor after : Cursor} {region : Region}
    (passage : Passage cursor region after) : cursor.next = .ok (region, after) := by
  cases passage with
  | endOfInput form => rw [next, form]
  | code form => rw [next, form]
  | otherAttribute form absent =>
      rw [next, form]
      exact nextAttribute_eq_ok_iff.mpr (.inl ⟨absent, rfl⟩)
  | blank form => rw [next, form]
  | lineComment form => rw [next, form]
  | @blockComment body tail shape found =>
      have form : cursor.peek = .blockComment :=
        (peek_eq_blockComment_iff cursor).mpr (Bytes.startsWith_iff.mpr ⟨_, shape⟩)
      rw [next, form]
      exact (nextBlock_eq_ok_iff form).mpr ⟨body, tail, shape, found, rfl⟩
  | @docAttribute body value text tail opened literal read =>
      have form : cursor.peek = .docAttribute :=
        (peek_eq_docAttribute_iff cursor).mpr (by rw [opened]; rfl)
      rw [next, form]
      exact nextAttribute_eq_ok_iff.mpr
        (.inr ⟨body, value, text, tail, opened, literal, read, rfl⟩)

theorem next_eq_ok_iff {cursor after : Cursor} {region : Region} :
    cursor.next = .ok (region, after) ↔ Passage cursor region after :=
  ⟨passage_of_next, next_of_passage⟩

namespace Passage

variable {cursor after : Cursor} {region : Region} (passage : Passage cursor region after)

include passage

theorem form : region.form = cursor.peek ∨
    cursor.peek = .docAttribute ∧ region.form = .code := by
  cases passage with
  | endOfInput form => exact .inl form.symm
  | code form => exact .inl form.symm
  | otherAttribute form _ => exact .inr ⟨form, rfl⟩
  | blank form => exact .inl form.symm
  | lineComment form => exact .inl form.symm
  | blockComment shape _ =>
      exact .inl ((peek_eq_blockComment_iff cursor).mpr
        (Bytes.startsWith_iff.mpr ⟨_, shape⟩)).symm
  | docAttribute opened _ _ =>
      exact .inl ((peek_eq_docAttribute_iff cursor).mpr (by rw [opened]; rfl)).symm

theorem form_of_region (isRegion : region.form ≠ .code) : region.form = cursor.peek := by
  rcases passage.form with same | ⟨-, code⟩
  · exact same
  · exact absurd code isRegion

end Passage

def withRest (cursor : Cursor) (rest : Bytes) : Cursor := ⟨cursor.name, cursor.place, rest⟩

structure Takes (cursor : Cursor) (region : Region) (after : Cursor) (used : Bytes) : Prop where
  nonempty : used ≠ []
  rest : cursor.rest = used ++ after.rest
  name : after.name = cursor.name
  place : after.place = cursor.place.advance used
  ended : used.getLast? = some Byte.lf ∨ after.rest = []
  anywhere : used.getLast? = some Byte.lf → ∀ tail,
    Passage (cursor.withRest (used ++ tail)) region (after.withRest tail)

theorem moveTo_of_append {cursor : Cursor} {used rest : Bytes}
    (shape : cursor.rest = used ++ rest) :
    cursor.moveTo rest = ⟨cursor.name, cursor.place.advance used, rest⟩ := by
  rw [moveTo, shape, Place.advanceTo_append]

theorem skipLine_withRest {cursor : Cursor} (feed : Byte.lf ∈ Bytes.wholeLine cursor.rest)
    (tail : Bytes) :
    (cursor.withRest (Bytes.wholeLine cursor.rest ++ tail)).skipLine =
      cursor.skipLine.withRest tail := by
  simp only [skipLine, withRest, Bytes.wholeLine_wholeLine_append feed,
    Bytes.afterLine_wholeLine_append feed]

theorem takes_line {cursor : Cursor} {form : Form} {lines : List Bytes} (more : cursor.rest ≠ [])
    (reads : Byte.lf ∈ Bytes.wholeLine cursor.rest → ∀ tail,
      Passage (cursor.withRest (Bytes.wholeLine cursor.rest ++ tail))
        ⟨form, cursor.position, lines, false⟩
        (cursor.withRest (Bytes.wholeLine cursor.rest ++ tail)).skipLine) :
    Takes cursor ⟨form, cursor.position, lines, false⟩ cursor.skipLine
      (Bytes.wholeLine cursor.rest) where
  nonempty := Bytes.wholeLine_ne_nil more
  rest := (Bytes.wholeLine_append_afterLine cursor.rest).symm
  name := rfl
  place := rfl
  ended := Bytes.wholeLine_ended cursor.rest
  anywhere := by
    intro ended tail
    have feed := List.mem_of_getLast? ended
    rw [← skipLine_withRest feed]
    exact reads feed tail

theorem takes_core {cursor : Cursor} {form : Form} {lines : List Bytes} {core tail : Bytes}
    {mark : UInt8} (shape : cursor.rest = core ++ mark :: tail) (noFeed : mark ≠ Byte.lf)
    (reads : ∀ tail, Passage (cursor.withRest (core ++ mark :: tail))
      ⟨form, cursor.position, lines, !isBlank (Bytes.line tail)⟩
      ((cursor.withRest (core ++ mark :: tail)).moveTo (Bytes.afterLine tail))) :
    Takes cursor ⟨form, cursor.position, lines, !isBlank (Bytes.line tail)⟩
      (cursor.moveTo (Bytes.afterLine tail)) (core ++ mark :: Bytes.wholeLine tail) := by
  have regroup (rest : Bytes) : core ++ mark :: (Bytes.wholeLine tail ++ rest) =
      (core ++ mark :: Bytes.wholeLine tail) ++ rest := by
    rw [List.append_assoc, List.cons_append]
  have whole : cursor.rest = (core ++ mark :: Bytes.wholeLine tail) ++ Bytes.afterLine tail := by
    rw [shape, ← regroup, Bytes.wholeLine_append_afterLine]
  have last : (core ++ mark :: Bytes.wholeLine tail).getLast? =
      some ((Bytes.wholeLine tail).getLast?.getD mark) := by
    rw [List.getLast?_append, List.getLast?_cons, Option.some_or]
  have moved := moveTo_of_append whole
  refine ⟨by simp, whole, rfl, by rw [moved], ?_, ?_⟩
  · rcases Bytes.wholeLine_ended tail with ended | empty
    · rw [last, ended]
      exact .inl rfl
    · exact .inr empty
  · intro ended other
    have feed : Byte.lf ∈ Bytes.wholeLine tail := by
      rw [last, Option.some.injEq] at ended
      cases found : (Bytes.wholeLine tail).getLast? with
      | none =>
          rw [found] at ended
          exact absurd ended noFeed
      | some byte =>
          rw [found] at ended
          exact ended ▸ List.mem_of_getLast? found
    have read := reads (Bytes.wholeLine tail ++ other)
    rw [Bytes.line_wholeLine_append feed, Bytes.afterLine_wholeLine_append feed, regroup,
      moveTo_of_append rfl] at read
    rw [moved]
    exact read

theorem Passage.takes {cursor after : Cursor} {region : Region}
    (passage : Passage cursor region after) (passes : region.form ≠ .endOfInput)
    (isRegion : region.form ≠ .code) : ∃ used, Takes cursor region after used := by
  cases passage with
  | endOfInput _ => exact absurd rfl passes
  | code _ => exact absurd rfl isRegion
  | otherAttribute _ _ => exact absurd rfl isRegion
  | blank form =>
      obtain ⟨more, blank⟩ := (peek_eq_blank_iff cursor).mp form
      refine ⟨_, takes_line more ?_⟩
      intro feed tail
      refine .blank ((peek_eq_blank_iff _).mpr ⟨?_, ?_⟩)
      · simp [withRest, List.ne_nil_of_mem feed]
      · rwa [withRest, Bytes.line_wholeLine_append feed]
  | lineComment form =>
      have marked := (peek_eq_lineComment_iff cursor).mp form
      refine ⟨_, takes_line (ne_nil_of_startsWith marked) ?_⟩
      intro feed tail
      rw [← Bytes.line_wholeLine_append feed tail]
      refine .lineComment ((peek_eq_lineComment_iff _).mpr ?_)
      rwa [withRest, Bytes.startsWith_wholeLine_append feed _ _ (by decide)]
  | @blockComment body tail shape found =>
      have regroup (tail : Bytes) :
          Comment.blockMark ++ (body ++ Byte.star :: Byte.slash :: tail) =
            (Comment.blockMark ++ (body ++ [Byte.star])) ++ Byte.slash :: tail := by
        simp
      refine ⟨_, takes_core (shape.trans (regroup tail)) (by decide) ?_⟩
      intro other
      exact .blockComment (regroup other).symm (Comment.bodyLength?_anywhere found other)
  | docAttribute opened literal read =>
      obtain ⟨core, shape, anywhere⟩ := Attribute.read_split opened literal read
      refine ⟨_, takes_core shape (by decide) ?_⟩
      intro other
      obtain ⟨otherBody, otherValue, otherOpened, otherLiteral, otherRead⟩ := anywhere other
      exact .docAttribute otherOpened otherLiteral otherRead

def markLength (source : Bytes) : Nat :=
  if Bytes.startsWith byteOrderMark source then byteOrderMark.length else 0

structure Stands (cursor : Cursor) (name source passed : Bytes) : Prop where
  name : cursor.name = name
  whole : source = passed ++ cursor.rest
  place : cursor.place = Place.start.advance passed
  boundary : passed.length = markLength source ∨ passed.getLast? = some Byte.lf ∨ cursor.rest = []

theorem Stands.takes {cursor after : Cursor} {name source passed used : Bytes} {region : Region}
    (stands : cursor.Stands name source passed) (takes : Takes cursor region after used) :
    after.Stands name source (passed ++ used) where
  name := takes.name.trans stands.name
  whole := by rw [stands.whole, takes.rest, List.append_assoc]
  place := by rw [takes.place, stands.place, Place.advance_append]
  boundary := by
    rw [List.getLast?_append]
    exact .inr (takes.ended.imp_left fun ended => by rw [ended, Option.some_or])

theorem Stands.skipInterpreter {cursor : Cursor} {name source passed : Bytes}
    (stands : cursor.Stands name source passed) :
    ∃ more, cursor.skipInterpreter.Stands name source (passed ++ more) := by
  unfold Cursor.skipInterpreter
  split
  · rename_i names
    have whole := Bytes.wholeLine_append_afterLine cursor.rest
    refine ⟨Bytes.wholeLine cursor.rest, stands.name, ?_, ?_, ?_⟩
    · rw [List.append_assoc, skipLine, whole, stands.whole]
    · rw [skipLine, stands.place, Place.advance_append]
    · have ended := Bytes.wholeLine_ended cursor.rest
      rw [List.getLast?_append]
      exact .inr (ended.imp_left fun ended => by rw [ended, Option.some_or])
  · exact ⟨[], by rwa [List.append_nil]⟩

theorem ofSource_stands (name source : Bytes) :
    ∃ passed, (ofSource name source).Stands name source passed := by
  unfold ofSource
  split
  · rename_i rest marked
    have starts : Bytes.startsWith byteOrderMark source = true := by
      rw [Bytes.startsWith, marked]
      rfl
    have stands : Stands ⟨name, Place.start.advance byteOrderMark, rest⟩ name source
        byteOrderMark :=
      ⟨rfl, Bytes.after?_eq_some_iff.mp marked, rfl, .inl (by simp [markLength, starts])⟩
    obtain ⟨more, skips⟩ := stands.skipInterpreter
    exact ⟨_, skips⟩
  · rename_i absent
    have starts : Bytes.startsWith byteOrderMark source = false := by
      rw [Bytes.startsWith, absent]
      rfl
    have stands : Stands ⟨name, Place.start, source⟩ name source [] :=
      ⟨rfl, rfl, rfl, .inl (by simp [markLength, starts])⟩
    obtain ⟨more, skips⟩ := stands.skipInterpreter
    exact ⟨_, skips⟩

end DocPrologue.Cursor
