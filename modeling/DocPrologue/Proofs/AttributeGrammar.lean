import DocPrologue.Proofs.Progress

/-!
The grammar of documentation attributes. A line that starts with an attribute mark is read as
documentation exactly when a whole attribute stands there: its opening, a literal, and the bracket
that closes it. It is code exactly when no literal begins behind an opening, and malformed
otherwise.
-/

namespace DocPrologue

namespace Literal

inductive Begins : Bytes → Prop
  | plain (rest : Bytes) : Begins (Byte.quote :: rest)
  | raw (hashes : Nat) (rest : Bytes) :
      Begins (rawMark :: (List.replicate hashes Byte.hash ++ Byte.quote :: rest))

theorem isStart_iff_begins {text : Bytes} : isStart text = true ↔ Begins text := by
  constructor
  · intro start
    cases text with
    | nil => contradiction
    | cons byte rest =>
        simp only [isStart, Bool.or_eq_true, Bool.and_eq_true, beq_iff_eq] at start
        rcases start with rfl | ⟨rfl, quoted⟩
        · exact .plain rest
        · obtain ⟨after, shape⟩ := List.head?_eq_some_iff.mp quoted
          have hashes : rest.takeWhile (· == Byte.hash) =
              List.replicate (rest.takeWhile (· == Byte.hash)).length Byte.hash := by
            apply List.eq_replicate_of_mem
            simpa using List.all_eq_true.mp (List.all_takeWhile (p := (· == Byte.hash)) (l := rest))
          have whole := List.takeWhile_append_dropWhile (p := (· == Byte.hash)) (l := rest)
          rw [← whole, hashes, shape]
          exact .raw _ after
  · intro begins
    cases begins with
    | plain rest => simp [isStart]
    | raw hashes rest =>
        have inside : ∀ byte ∈ List.replicate hashes Byte.hash, (byte == Byte.hash) = true := by
          simp
        simp [isStart, List.dropWhile_append_of_pos inside, Byte.quote, Byte.hash]

theorem unquote_eq_ok_iff {literal rest value : Bytes} :
    unquote (literal ++ rest) = .ok (value, literal.length) ↔
      read (literal ++ rest) = .ok (value, rest) := by
  unfold unquote
  constructor
  · intro done
    split at done
    · rename_i found tail read
      obtain ⟨used, shape, -⟩ := read_reads read
      have length := congrArg List.length shape
      simp only [List.length_append, Except.ok.injEq, Prod.mk.injEq] at length done
      obtain ⟨-, rfl⟩ := List.append_inj shape (by omega)
      rw [read, done.1]
    · contradiction
  · intro read
    rw [read]
    simp

theorem exists_of_unquote {text value : Bytes} {length : Nat}
    (done : unquote text = .ok (value, length)) :
    ∃ used rest, text = used ++ rest ∧ length = used.length ∧ Reads read used value := by
  unfold unquote at done
  split at done
  · rename_i found rest read
    obtain ⟨used, rfl, reads⟩ := read_reads read
    obtain ⟨rfl, rfl⟩ := Prod.mk.inj (Except.ok.inj done)
    exact ⟨used, rest, rfl, by rw [List.length_append, Nat.add_sub_cancel], reads⟩
  · contradiction

end Literal

namespace Attribute

def Opening (front : Bytes) : Prop :=
  ∃ first second third fourth, Bytes.IsGap first ∧ Bytes.IsGap second ∧ Bytes.IsGap third ∧
    Bytes.IsGap fourth ∧
    front = mark ++ (first ++ Byte.openBracket :: (second ++ (docName ++ (third ++ Byte.equals ::
      fourth))))

theorem bind_literal?_eq_some_iff {text value : Bytes} :
    (body? text).bind literal? = some value ↔
      Literal.Begins value ∧ ∃ front, Opening front ∧ text = front ++ value := by
  rw [Option.bind_eq_some_iff, ← Literal.isStart_iff_begins]
  constructor
  · rintro ⟨body, opened, literal⟩
    obtain ⟨first, firstGap, rfl⟩ := body?_eq_some_iff.mp opened
    obtain ⟨start, second, third, fourth, secondGap, thirdGap, fourthGap, rfl⟩ :=
      literal?_eq_some_iff.mp literal
    exact ⟨start, _, ⟨first, second, third, fourth, firstGap, secondGap, thirdGap, fourthGap, rfl⟩,
      by simp⟩
  · rintro ⟨start, front, ⟨first, second, third, fourth, firstGap, secondGap, thirdGap, fourthGap,
      rfl⟩, rfl⟩
    exact ⟨_, body?_eq_some_iff.mpr ⟨first, firstGap, by simp⟩,
      literal?_eq_some_iff.mpr ⟨start, second, third, fourth, secondGap, thirdGap, fourthGap, rfl⟩⟩

def Opens (text : Bytes) : Prop :=
  ∃ front literal, Opening front ∧ Literal.Begins literal ∧ text = front ++ literal

theorem not_opens_iff {text : Bytes} :
    ¬Opens text ↔ (body? text).bind literal? = none := by
  constructor
  · intro absent
    rw [Option.eq_none_iff_forall_ne_some]
    intro literal found
    obtain ⟨begins, front, opening, shape⟩ := bind_literal?_eq_some_iff.mp found
    exact absent ⟨front, literal, opening, begins, shape⟩
  · rintro none ⟨front, literal, opening, begins, shape⟩
    have found := bind_literal?_eq_some_iff.mpr ⟨begins, front, opening, shape⟩
    rw [none] at found
    contradiction

/-- A whole attribute at the start of a text: `core` is an opening, a literal that stands for
`value` and a gap, and `tail` follows the bracket that closes it. -/
def Whole (text core value tail : Bytes) : Prop :=
  ∃ front literal gap, Opening front ∧ Bytes.IsGap gap ∧ core = front ++ (literal ++ gap) ∧
    text = core ++ Byte.closeBracket :: tail ∧
    Literal.unquote (literal ++ (gap ++ Byte.closeBracket :: tail)) = .ok (value, literal.length)

theorem whole_iff {text value tail : Bytes} :
    (∃ core, Whole text core value tail) ↔
      ∃ start, (body? text).bind literal? = some start ∧ read start = .ok (value, tail) := by
  constructor
  · rintro ⟨core, front, literal, gap, opening, isGap, rfl, rfl, unquoted⟩
    have done := Literal.unquote_eq_ok_iff.mp unquoted
    refine ⟨_, bind_literal?_eq_some_iff.mpr ⟨?_, front, opening, ?_⟩,
      read_eq_ok_iff.mpr ⟨gap, isGap, done⟩⟩
    · exact Literal.isStart_iff_begins.mp (Literal.isStart_of_read done)
    · simp
  · rintro ⟨start, found, done⟩
    obtain ⟨-, front, opening, rfl⟩ := bind_literal?_eq_some_iff.mp found
    obtain ⟨gap, isGap, literal⟩ := read_eq_ok_iff.mp done
    obtain ⟨used, rfl, -⟩ := Literal.read_reads literal
    exact ⟨_, front, used, gap, opening, isGap, rfl, by simp,
      Literal.unquote_eq_ok_iff.mpr literal⟩

end Attribute

namespace Cursor

open Text (isBlank)

structure Passes (cursor after : Cursor) (used : Bytes) : Prop where
  name : after.name = cursor.name
  rest : cursor.rest = used ++ after.rest
  place : after.place = cursor.place.advance used

theorem passes_wholeLine_iff {cursor after : Cursor} {core tail : Bytes} {mark : UInt8}
    (shape : cursor.rest = core ++ mark :: tail) :
    cursor.Passes after (core ++ mark :: Bytes.wholeLine tail) ↔
      after = cursor.moveTo (Bytes.afterLine tail) := by
  have whole : cursor.rest = (core ++ mark :: Bytes.wholeLine tail) ++ Bytes.afterLine tail := by
    rw [shape, List.append_assoc, List.cons_append, Bytes.wholeLine_append_afterLine]
  rw [moveTo_of_append whole]
  constructor
  · rintro ⟨name, rest, place⟩
    have unread := List.append_cancel_left (whole.symm.trans rest)
    rw [unread, ← name, ← place]
  · rintro rfl
    exact ⟨rfl, whole, rfl⟩

theorem next_of_mark {cursor : Cursor}
    (marked : Bytes.startsWith Attribute.mark cursor.rest = true) :
    cursor.next = cursor.nextAttribute := by
  rw [next, peek_of_mark marked]
  cases opened : Attribute.body? cursor.rest with
  | some body => rfl
  | none => simp [nextAttribute, opened]

theorem nextAttribute_docAttribute_iff {cursor after : Cursor} {region : Region} :
    cursor.nextAttribute = .ok (region, after) ∧ region.form = .docAttribute ↔
      ∃ core value tail, Attribute.Whole cursor.rest core value tail ∧
        region = ⟨.docAttribute, cursor.position, Bytes.split Byte.lf value,
          !isBlank (Bytes.line tail)⟩ ∧
        cursor.Passes after (core ++ Byte.closeBracket :: Bytes.wholeLine tail) := by
  rw [nextAttribute_eq_ok_iff]
  constructor
  · rintro ⟨⟨-, same⟩ | ⟨body, start, value, tail, opened, literal, done, same⟩, form⟩
    · rw [(Prod.mk.inj same).1] at form
      contradiction
    · obtain ⟨isRegion, moved⟩ := Prod.mk.inj same
      obtain ⟨core, whole⟩ := Attribute.whole_iff.mpr
        ⟨start, Option.bind_eq_some_iff.mpr ⟨body, opened, literal⟩, done⟩
      obtain ⟨-, -, -, -, -, -, shape, -⟩ := id whole
      exact ⟨core, value, tail, whole, isRegion, (passes_wholeLine_iff shape).mpr moved⟩
  · rintro ⟨core, value, tail, whole, rfl, passes⟩
    obtain ⟨-, -, -, -, -, -, shape, -⟩ := id whole
    obtain ⟨start, found, done⟩ := Attribute.whole_iff.mp ⟨core, whole⟩
    obtain ⟨body, opened, literal⟩ := Option.bind_eq_some_iff.mp found
    refine ⟨.inr ⟨body, start, value, tail, opened, literal, done, ?_⟩, rfl⟩
    rw [complete, (passes_wholeLine_iff shape).mp passes]

theorem nextAttribute_code_iff {cursor after : Cursor} {region : Region} :
    cursor.nextAttribute = .ok (region, after) ∧ region.form = .code ↔
      ¬Attribute.Opens cursor.rest ∧ region = ⟨.code, cursor.position, [], false⟩ ∧
        after = cursor := by
  rw [nextAttribute_eq_ok_iff, Attribute.not_opens_iff]
  constructor
  · rintro ⟨⟨absent, same⟩ | ⟨_, _, _, _, _, _, _, same⟩, form⟩
    · exact ⟨absent, Prod.mk.inj same⟩
    · rw [(Prod.mk.inj same).1] at form
      contradiction
  · rintro ⟨absent, rfl, rfl⟩
    exact ⟨.inl ⟨absent, rfl⟩, rfl⟩

/-- A line that starts with an attribute mark is documentation exactly when a whole attribute stands
there, and code exactly when no literal begins behind an opening. Every other one is malformed. -/
theorem next_attributeMark (cursor : Cursor)
    (marked : Bytes.startsWith Attribute.mark cursor.rest = true) :
    (∀ region after, cursor.next = .ok (region, after) ∧ region.form = .docAttribute ↔
      ∃ core value tail, Attribute.Whole cursor.rest core value tail ∧
        region = ⟨.docAttribute, cursor.position, Bytes.split Byte.lf value,
          !isBlank (Bytes.line tail)⟩ ∧
        cursor.Passes after (core ++ Byte.closeBracket :: Bytes.wholeLine tail)) ∧
    (∀ region after, cursor.next = .ok (region, after) ∧ region.form = .code ↔
      ¬Attribute.Opens cursor.rest ∧ region = ⟨.code, cursor.position, [], false⟩ ∧
        after = cursor) ∧
    (Attribute.Opens cursor.rest →
      (¬∃ core value tail, Attribute.Whole cursor.rest core value tail) →
      ∃ error, cursor.next = .error error ∧ cursor.after .next = cursor) := by
  rw [next_of_mark marked]
  refine ⟨fun _ _ => nextAttribute_docAttribute_iff, fun _ _ => nextAttribute_code_iff, ?_⟩
  intro opens incomplete
  cases read : cursor.nextAttribute with
  | error error => exact ⟨error, rfl, by simp only [after, next_of_mark marked, read]⟩
  | ok result =>
      obtain ⟨region, behind⟩ := result
      rcases nextAttribute_eq_ok_iff.mp read with
        ⟨absent, -⟩ | ⟨body, start, value, tail, opened, literal, done, -⟩
      · exact absurd opens (Attribute.not_opens_iff.mpr absent)
      · obtain ⟨core, whole⟩ := Attribute.whole_iff.mpr
          ⟨start, Option.bind_eq_some_iff.mpr ⟨body, opened, literal⟩, done⟩
        exact absurd ⟨core, value, tail, whole⟩ incomplete

theorem next_attributeMark_lines :
    let core : Bytes := Text.utf8 "#![doc =\nr#\"a\"b\"#\n"
    let tail : Bytes := Text.utf8 " x\ny"
    let cursor : Cursor := ⟨[], Place.start, core ++ Byte.closeBracket :: tail⟩
    Bytes.startsWith Attribute.mark cursor.rest = true ∧
      Attribute.Whole cursor.rest core (Text.utf8 "a\"b") tail ∧
      ∃ region after, (cursor.next = .ok (region, after) ∧ region.form = .docAttribute) ∧
        region.lines = [Text.utf8 "a\"b"] ∧ region.trailing = true ∧
        after.rest = Text.utf8 "y" := by
  intro core tail cursor
  have marked : Bytes.startsWith Attribute.mark cursor.rest = true := by decide +kernel
  have whole : Attribute.Whole cursor.rest core (Text.utf8 "a\"b") tail := by
    refine ⟨Text.utf8 "#![doc =\n", Text.utf8 "r#\"a\"b\"#", [Byte.lf], ?_, ?_, ?_, ?_, ?_⟩
    · refine ⟨[], [], [Byte.space], [Byte.lf], ?_, ?_, ?_, ?_, ?_⟩ <;> decide +kernel
    · decide +kernel
    · decide +kernel
    · decide +kernel
    · rfl
  refine ⟨marked, whole, _, ⟨[], ⟨22, 4, 1⟩, Text.utf8 "y"⟩,
    ((next_attributeMark cursor marked).1 _ _).mpr ⟨_, _, _, whole, rfl, ?_⟩, ?_, ?_, ?_⟩
  · exact ⟨rfl, by decide +kernel, by decide +kernel⟩
  · decide +kernel
  · decide +kernel
  · rfl

end Cursor

end DocPrologue
