import DocPrologue.Proofs.Nesting
import DocPrologue.Proofs.PlainLiterals

/-!
The spots of faults. A region that cannot be read is blamed on the text from one of its bytes on: a
block comment or a literal that never ends on its first byte, a plain literal with a bad item on
that item, and an attribute that does not close behind its literal on what stands there instead.
-/

namespace DocPrologue

namespace Bytes

variable {needle text : Bytes}

theorem findFrom_isSome_of_infix (stands : needle <:+: text) (passed : Nat) :
    (findFrom needle passed text).isSome := by
  induction text generalizing passed with
  | nil => simp [findFrom, List.infix_nil.mp stands]
  | cons byte rest ih =>
      rw [findFrom]
      split
      · rfl
      · rename_i absent
        rcases List.infix_cons_iff.mp stands with ⟨after, starts⟩ | later
        · exact absurd (startsWith_iff.mpr ⟨after, starts.symm⟩) absent
        · exact ih later (passed + 1)

theorem find?_eq_none_iff : find? needle text = none ↔ ¬needle <:+: text := by
  constructor
  · intro absent stands
    have found := findFrom_isSome_of_infix stands 0
    rw [← find?, absent] at found
    contradiction
  · intro absent
    rw [Option.eq_none_iff_forall_ne_some]
    intro place found
    obtain ⟨before, after, rfl, -⟩ := findFrom_split found
    exact absent ⟨before, after, List.append_assoc ..⟩

end Bytes

namespace Literal

variable {whole text spot : Bytes} {fault : Fault}

def NoItem (text : Bytes) : Prop := ∀ item rest, text = Item.text item ++ rest → ¬item.Before rest

/-- The fault of a literal and the text it is reported at: the literal itself if it never ends, else
what stands behind the items that can be read. -/
inductive Blames (whole : Bytes) : Fault → Bytes → Prop
  | unterminated {items : List Item} {behind : Bytes} :
      whole = Byte.quote :: (texts items ++ behind) → Separate behind items →
      behind = [] ∨ behind = [Byte.backslash] → Blames whole .unterminated whole
  | unterminatedRaw {hashes : Nat} {body : Bytes} :
      whole = rawMark :: (List.replicate hashes Byte.hash ++ Byte.quote :: body) →
      ¬closing hashes <:+: body → Blames whole (.unterminatedRaw hashes) whole
  | bareReturn {items : List Item} {rest : Bytes} :
      whole = Byte.quote :: (texts items ++ Byte.cr :: rest) →
      Separate (Byte.cr :: rest) items → rest.head? ≠ some Byte.lf →
      Blames whole .bareReturn (Byte.cr :: rest)
  | escape {items : List Item} {byte : UInt8} {rest : Bytes} {fault : Fault} :
      whole = Byte.quote :: (texts items ++ Byte.backslash :: byte :: rest) →
      Separate (Byte.backslash :: byte :: rest) items →
      NoItem (Byte.backslash :: byte :: rest) → escape (byte :: rest) = .error fault →
      Blames whole fault (Byte.backslash :: byte :: rest)

theorem read_raw (hashes : Nat) (body : Bytes) :
    let whole := rawMark :: (List.replicate hashes Byte.hash ++ Byte.quote :: body)
    read whole = match Bytes.find? (closing hashes) body with
      | some length => .ok (Bytes.dropReturns (body.take length), body.drop (length + hashes + 1))
      | none => .error (.unterminatedRaw hashes, whole) := by
  intro whole
  have allHash : ∀ byte ∈ List.replicate hashes Byte.hash, byte = Byte.hash :=
    fun byte member => (List.mem_replicate.mp member).2
  have same := @raw_eq _ body allHash whole
  rw [List.length_replicate] at same
  rw [read, if_pos rfl]
  exact same

theorem blames_of_read (begins : Begins whole) (failed : read whole = .error (fault, spot)) :
    Blames whole fault spot := by
  cases begins with
  | plain body =>
      obtain ⟨items, behind, rfl, separate, ended⟩ := exists_items body
      rw [read_items separate] at failed
      rcases item_or_stuck behind with ⟨item, after, shape, before⟩ | ⟨after, rfl⟩ | ⟨reason, stuck⟩
      · exact absurd before (ended item after shape)
      · rw [plain_quote] at failed
        contradiction
      · rw [plain_stuck stuck] at failed
        obtain ⟨rfl, rfl⟩ := Prod.mk.inj (Except.error.inj failed)
        cases stuck with
        | endOfInput => exact .unterminated rfl separate (.inl rfl)
        | lastBackslash => exact .unterminated rfl separate (.inr rfl)
        | bareReturn noFeed => exact .bareReturn rfl separate noFeed
        | escape bad =>
            rw [if_neg fun ended => escape_ne_unterminated (ended ▸ bad)]
            exact .escape rfl separate ended bad
  | raw hashes body =>
      rw [read_raw] at failed
      split at failed
      · contradiction
      · rename_i absent
        obtain ⟨rfl, rfl⟩ := Prod.mk.inj (Except.error.inj failed)
        exact .unterminatedRaw rfl (Bytes.find?_eq_none_iff.mp absent)

theorem Blames.read (blames : Blames whole fault spot) : read whole = .error (fault, spot) := by
  have stops {items : List Item} {behind : Bytes} {reason : Fault}
      (separate : Separate behind items) (stuck : Stuck behind reason) :
      Literal.read (Byte.quote :: (texts items ++ behind)) = .error (reason,
        if reason = .unterminated then Byte.quote :: (texts items ++ behind) else behind) := by
    rw [read_items separate, plain_stuck stuck]
  cases blames with
  | unterminated shape separate ended =>
      subst shape
      rcases ended with rfl | rfl
      · exact stops separate .endOfInput
      · exact stops separate .lastBackslash
  | unterminatedRaw shape unclosed =>
      subst shape
      rw [read_raw, Bytes.find?_eq_none_iff.mpr unclosed]
  | bareReturn shape separate noFeed =>
      subst shape
      exact stops separate (.bareReturn noFeed)
  | escape shape separate _ bad =>
      subst shape
      rw [stops separate (.escape bad), if_neg fun ended => escape_ne_unterminated (ended ▸ bad)]

/-- A literal that begins is refused exactly for the faults that it has. -/
theorem read_eq_error_iff (begins : Begins whole) :
    read whole = .error (fault, spot) ↔ Blames whole fault spot :=
  ⟨blames_of_read begins, Blames.read⟩

end Literal

namespace Attribute

variable {isRaw : Bool} {value text spot : Bytes} {fault : Fault}

def closingFault (isRaw : Bool) (spot : Bytes) : Fault :=
  if spot.head? = some Byte.hash ∧ isRaw then .delimiterMismatch else .unclosed

inductive Blames (value : Bytes) : Fault → Bytes → Prop
  | literal {fault : Literal.Fault} {spot : Bytes} : Literal.Blames value fault spot →
      Blames value (.literal fault) spot
  | behind {literal gap spot text : Bytes} : value = literal ++ (gap ++ spot) →
      Literal.unquote value = .ok (text, literal.length) → Bytes.IsGap gap → Bytes.NoGap spot →
      spot.head? ≠ some Byte.closeBracket →
      Blames value (closingFault (value.head? == some Literal.rawMark) spot) spot

theorem close_eq (isRaw : Bool) (text : Bytes) :
    close isRaw text =
      if (skipGap text).head? = some Byte.closeBracket then .ok (skipGap text).tail
      else .error (closingFault isRaw (skipGap text), skipGap text) := by
  unfold close closingFault
  cases skipGap text with
  | nil => rfl
  | cons byte rest =>
      simp only [List.head?_cons, Option.some.injEq, List.tail_cons]
      split
      · rfl
      · split <;> rfl

theorem close_eq_error_iff :
    close isRaw text = .error (fault, spot) ↔
      fault = closingFault isRaw spot ∧ spot.head? ≠ some Byte.closeBracket ∧
        ∃ gap, Bytes.IsGap gap ∧ Bytes.NoGap spot ∧ text = gap ++ spot := by
  rw [close_eq]
  constructor
  · intro failed
    obtain ⟨gap, isGap, shape⟩ := exists_gap text
    have noGap : Bytes.NoGap (skipGap text) := Bytes.noGap_dropWhile text
    split at failed
    · contradiction
    · rename_i noBracket
      obtain ⟨rfl, rfl⟩ := Prod.mk.inj (Except.error.inj failed)
      exact ⟨rfl, noBracket, gap, isGap, noGap, shape⟩
  · rintro ⟨rfl, noBracket, gap, isGap, noGap, rfl⟩
    have skipped : skipGap (gap ++ spot) = spot := Bytes.dropWhile_gap isGap noGap
    rw [skipped, if_neg noBracket]

theorem read_eq_error_iff (begins : Literal.Begins value) :
    read value = .error (fault, spot) ↔ Blames value fault spot := by
  constructor
  · intro failed
    unfold read at failed
    split at failed
    · rename_i reason here literal
      obtain ⟨rfl, rfl⟩ := Prod.mk.inj (Except.error.inj failed)
      exact .literal ((Literal.read_eq_error_iff begins).mp literal)
    · rename_i text rest literal
      split at failed
      · rename_i problem unclosed
        cases Except.error.inj failed
        obtain ⟨rfl, noBracket, gap, isGap, noGap, rfl⟩ := close_eq_error_iff.mp unclosed
        obtain ⟨used, rfl, -⟩ := Literal.read_reads literal
        exact .behind rfl (Literal.unquote_eq_ok_iff.mpr literal) isGap noGap noBracket
      · contradiction
  · intro blames
    unfold read
    cases blames with
    | literal inside => rw [inside.read]
    | behind shape unquoted isGap noGap noBracket =>
        subst shape
        rw [Literal.unquote_eq_ok_iff.mp unquoted]
        simp only [close_eq_error_iff.mpr ⟨rfl, noBracket, _, isGap, noGap, rfl⟩]

theorem Blames.suffix (begins : Literal.Begins value) (blames : Blames value fault spot) :
    spot <:+ value :=
  read_fault ((read_eq_error_iff begins).mpr blames)

theorem Opening.startsWith {front : Bytes} (opening : Opening front) (rest : Bytes) :
    Bytes.startsWith mark (front ++ rest) = true := by
  obtain ⟨first, second, third, fourth, -, -, -, -, rfl⟩ := opening
  exact Bytes.startsWith_iff.mpr ⟨_, List.append_assoc ..⟩

end Attribute

namespace Cursor

variable {cursor : Cursor} {error : Malformed} {reason : Malformed.Reason} {spot : Bytes}

inductive Blames (cursor : Cursor) : Malformed.Reason → Bytes → Prop
  | blockComment {text : Bytes} : cursor.rest = Comment.blockMark ++ text →
      (∀ length, ¬Comment.ClosesAt text length) → Blames cursor .unterminatedBlock cursor.rest
  | docAttribute {front value spot : Bytes} {fault : Attribute.Fault} :
      cursor.rest = front ++ value → Attribute.Opening front → Literal.Begins value →
      Attribute.Blames value fault spot → Blames cursor (.badAttribute fault) spot

theorem exists_blames (failed : cursor.next = .error error) :
    ∃ spot, cursor.Blames error.reason spot ∧ error.position = cursor.positionOf spot := by
  unfold next at failed
  split at failed
  case h_1 => contradiction
  case h_2 => contradiction
  case h_3 => contradiction
  case h_4 => contradiction
  case h_5 form =>
      obtain ⟨text, shape⟩ := Bytes.startsWith_iff.mp ((peek_eq_blockComment_iff cursor).mp form)
      simp only [nextBlock, shape, List.drop_left] at failed
      split at failed
      · rename_i absent
        cases failed
        exact ⟨cursor.rest, .blockComment shape (Comment.bodyLength?_eq_none_iff.mp absent),
          cursor.positionOf_rest.symm⟩
      · contradiction
  case h_6 =>
      unfold nextAttribute at failed
      split at failed
      · contradiction
      · rename_i value found
        obtain ⟨begins, front, opening, shape⟩ := Attribute.bind_literal?_eq_some_iff.mp found
        split at failed
        · rename_i fault spot read
          cases failed
          exact ⟨spot, .docAttribute shape opening begins
            ((Attribute.read_eq_error_iff begins).mp read), rfl⟩
        · contradiction

theorem Blames.next (blames : cursor.Blames reason spot) :
    cursor.next = .error ⟨cursor.positionOf spot, reason⟩ := by
  cases blames with
  | blockComment shape unclosed =>
      have absent := Comment.bodyLength?_eq_none_iff.mpr unclosed
      have marked := Bytes.startsWith_iff.mpr ⟨_, shape⟩
      rw [next_of_blockMark marked, positionOf_rest]
      simp only [nextBlock, shape, List.drop_left, absent]
  | docAttribute shape opening begins inside =>
      have found := Attribute.bind_literal?_eq_some_iff.mpr ⟨begins, _, opening, shape⟩
      have marked : Bytes.startsWith Attribute.mark cursor.rest = true :=
        shape ▸ opening.startsWith _
      rw [next_of_mark marked]
      simp only [nextAttribute, found, (Attribute.read_eq_error_iff begins).mpr inside]

/-- A region is malformed exactly for the faults that it has, each reported at its own text. -/
theorem next_eq_error_iff :
    cursor.next = .error error ↔
      ∃ spot, cursor.Blames error.reason spot ∧ error.position = cursor.positionOf spot := by
  refine ⟨exists_blames, ?_⟩
  rintro ⟨spot, blames, place⟩
  rw [blames.next, ← place]

end Cursor

end DocPrologue
