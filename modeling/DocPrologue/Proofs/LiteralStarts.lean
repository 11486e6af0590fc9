import DocPrologue.Proofs.Faults
import DocPrologue.Proofs.Lookahead

/-!
How the start of a literal is told. Looking at the start of a text and reading it agree on whether a
literal stands there, so once an attribute was found to have a literal for its value, reading it
never fails for want of one. An attribute with any other value is code and ends the prologue.
-/

namespace DocPrologue

namespace Literal

variable {text spot : Bytes} {fault : Fault} {error : Error}

theorem Fault.message_eq_expected_iff :
    fault.message = Fault.expected.message ↔ fault = .expected := by
  refine ⟨fun same => ?_, fun same => by rw [same]⟩
  -- The second byte tells the words apart, also where more text follows them.
  have second := congrArg (·[1]?) same
  cases fault with
  | expected => rfl
  | unterminatedRaw hashes =>
      dsimp only [message] at second
      rw [List.getElem?_append_left (by decide +kernel)] at second
      exact absurd second (by decide +kernel)
  | unknownEscape byte =>
      dsimp only [message] at second
      rw [List.getElem?_append_left (by decide +kernel)] at second
      exact absurd second (by decide +kernel)
  | _ => exact absurd second (by decide +kernel)

theorem read_of_not_isStart (absent : isStart text = false) :
    read text = .error (.expected, text) := by
  cases text with
  | nil => rfl
  | cons byte rest =>
      simp only [isStart, Bool.or_eq_false_iff, Bool.and_eq_false_iff, beq_eq_false_iff_ne]
        at absent
      obtain ⟨noQuote, noRaw⟩ := absent
      rw [read]
      split
      · rename_i isRaw
        have unquoted := noRaw.resolve_left (not_not_intro isRaw)
        simp only [raw]
        split
        · rfl
        · rename_i first body shape
          rw [shape, List.head?_cons] at unquoted
          rw [if_neg fun quote => unquoted (congrArg some quote)]
      · rfl

theorem Blames.ne_expected (blames : Blames text fault spot) : fault ≠ .expected := by
  cases blames with
  | unterminated _ _ _ => simp
  | unterminatedRaw _ _ => simp
  | bareReturn _ _ _ => simp
  | escape _ _ _ failed =>
      rintro rfl
      exact escape_ne (.inl rfl) failed

theorem unquote_of_not_isStart (absent : isStart text = false) :
    unquote text = .error ⟨0, .expected⟩ := by
  simp [unquote, read_of_not_isStart absent]

theorem not_isStart_of_expected (failed : unquote text = .error error)
    (missing : error.fault = .expected) : isStart text = false := by
  rw [← Bool.not_eq_true]
  intro start
  unfold unquote at failed
  split at failed
  · contradiction
  · rename_i read
    obtain rfl := Except.error.inj failed
    exact (blames_of_read (isStart_iff_begins.mp start) read).ne_expected missing

end Literal

namespace Attribute

def OtherValue (text : Bytes) : Prop :=
  ∃ front value, Opening front ∧ Bytes.NoGap value ∧ Literal.isStart value = false ∧
    text = front ++ value

variable {text : Bytes}

theorem OtherValue.bind_literal? (other : OtherValue text) :
    (body? text).bind literal? = none := by
  obtain ⟨_, value, ⟨first, second, third, fourth, firstGap, secondGap, thirdGap, fourthGap, rfl⟩,
    noGap, absent, rfl⟩ := other
  have opened := body?_eq_some_iff.mpr ⟨first, firstGap, @rfl _ (mark ++ (first ++
    Byte.openBracket :: (second ++ (docName ++ (third ++ Byte.equals :: (fourth ++ value))))))⟩
  have noLiteral := literal?_shape secondGap thirdGap fourthGap noGap
  rw [absent, if_neg (by decide)] at noLiteral
  simp only [List.append_assoc, List.cons_append]
  rw [opened, Option.bind_some, noLiteral]

theorem OtherValue.startsWith (other : OtherValue text) : Bytes.startsWith mark text = true := by
  obtain ⟨front, value, opening, -, -, rfl⟩ := other
  exact opening.startsWith value

end Attribute

namespace Cursor

variable {cursor : Cursor} {error : Malformed}

theorem next_of_otherValue (other : Attribute.OtherValue cursor.rest) :
    cursor.next = .ok (⟨.code, cursor.position, [], false⟩, cursor) := by
  rw [next_of_mark other.startsWith]
  exact nextAttribute_eq_ok_iff.mpr (.inl ⟨other.bind_literal?, rfl⟩)

theorem next_ne_expected (failed : cursor.next = .error error) :
    error.reason.message ≠ Literal.Fault.expected.message := by
  obtain ⟨spot, blames, -⟩ := exists_blames failed
  generalize error.reason = reason at blames
  cases blames with
  | blockComment _ _ => decide +kernel
  | docAttribute _ _ _ inside =>
      cases inside with
      | literal inside =>
          exact fun same => inside.ne_expected (Literal.Fault.message_eq_expected_iff.mp same)
      | behind _ _ _ _ _ =>
          unfold Attribute.closingFault
          split <;> decide +kernel

end Cursor

namespace Block

variable {scan : Scan} {name source : Bytes}

theorem Scan.turn_of_otherValue (other : Attribute.OtherValue scan.cursor.rest) :
    scan.turn = .inFront := by
  cases changes : scan.changesForm with
  | true => exact turn_of_changesForm changes
  | false => exact turn_of_code changes (Cursor.next_of_otherValue other) rfl

theorem extract_of_otherValue {turns : Nat} (run : Scan.Runs turns (.start name source) scan)
    (other : Attribute.OtherValue scan.cursor.rest) :
    extract name source = .ok (scan.lines.dropWhile Text.isBlank).reverse := by
  have ended : scan.result = .ok scan.lines := by
    rw [Scan.result_eq, Scan.turn_of_otherValue other]
  rw [Scan.extract_eq, run.result, ended]

end Block

/-- A text begins no literal exactly if reading it fails with the words for a missing one, and then
it fails at the first byte. So whatever is asked of a cursor, no region is malformed with these
words, and an attribute whose value is no literal ends the prologue. -/
theorem Literal.starts_agree (text name source : Bytes) :
    let expected := Text.utf8 "expected string literal"
    (isStart text = false ↔
      ∃ error, unquote text = .error error ∧ error.fault.message = expected) ∧
    (∀ error, unquote text = .error error → error.fault.message = expected → error.offset = 0) ∧
    (∀ calls error, ((Cursor.ofSource name source).afterAll calls).next = .error error →
      error.reason.message ≠ expected) ∧
    ∀ turns scan, Block.Scan.Runs turns (.start name source) scan →
      Attribute.OtherValue scan.cursor.rest →
      scan.cursor.next = .ok (⟨.code, scan.cursor.position, [], false⟩, scan.cursor) ∧
        Block.extract name source = .ok (scan.lines.dropWhile Text.isBlank).reverse := by
  intro expected
  have absent : ∀ error, unquote text = .error error → error.fault.message = expected →
      isStart text = false := fun error failed words =>
    not_isStart_of_expected failed (Fault.message_eq_expected_iff.mp words)
  refine ⟨⟨fun absent => ⟨_, unquote_of_not_isStart absent, rfl⟩, ?_⟩, ?_,
    fun _ _ failed => Cursor.next_ne_expected failed,
    fun _ _ run other => ⟨Cursor.next_of_otherValue other, Block.extract_of_otherValue run other⟩⟩
  · rintro ⟨error, failed, words⟩
    exact absent error failed words
  · intro error failed words
    rw [unquote_of_not_isStart (absent error failed words)] at failed
    rw [← Except.error.inj failed]

theorem Literal.starts_agree_hashes :
    let text := Text.utf8 "r##x"
    let source := Text.utf8 "#![doc = \"a\"]\n#![doc = r##x]\n"
    let scan : Block.Scan :=
      ⟨some .docAttribute, [Text.utf8 "a"], ⟨[], ⟨14, 2, 1⟩, Text.utf8 "#![doc = r##x]\n"⟩⟩
    let endless := (Cursor.ofSource [] (Text.utf8 "#![doc = \"a")).afterAll []
    isStart text = false ∧ unquote text = .error ⟨0, .expected⟩ ∧
      Block.Scan.Runs 1 (.start [] source) scan ∧ Attribute.OtherValue scan.cursor.rest ∧
      Block.extract [] source = .ok [Text.utf8 "a"] ∧
      ∃ error, endless.next = .error error ∧ error.reason.message ≠ Fault.expected.message := by
  intro text source scan endless
  obtain ⟨agrees, offset, -, ends⟩ := starts_agree text [] source
  obtain ⟨-, -, faults, -⟩ := starts_agree text [] (Text.utf8 "#![doc = \"a")
  have absent : isStart text = false := by decide +kernel
  obtain ⟨⟨place, fault⟩, failed, words⟩ := agrees.mp absent
  obtain rfl : place = 0 := offset _ failed words
  obtain rfl : fault = .expected := Fault.message_eq_expected_iff.mp words
  have run : Block.Scan.Runs 1 (.start [] source) scan := .step (by decide +kernel) (.refl scan)
  have other : Attribute.OtherValue scan.cursor.rest := by
    refine ⟨Text.utf8 "#![doc = ", Text.utf8 "r##x]\n", ⟨[], [], [Byte.space], [Byte.space], ?_⟩,
      Bytes.noGap_cons (by decide) _, by decide +kernel, by decide +kernel⟩
    decide +kernel
  have malformed : endless.next =
      .error ⟨⟨[], 9, 1, 10⟩, .badAttribute (.literal .unterminated)⟩ := by decide +kernel
  exact ⟨absent, failed, run, other, (ends 1 scan run other).2.trans (by decide +kernel),
    _, malformed, faults [] _ malformed⟩

end DocPrologue
