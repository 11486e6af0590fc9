import DocPrologue.Proofs.Displacement
import DocPrologue.Proofs.Inclusions
import DocPrologue.Proofs.LineComments

/-!
Text in front of a source that does not count: a byte order mark, an interpreter line and blank
lines. A source has the same prologue behind any such text, and where reading it fails, it fails at
the same spot of the source, moved by what stands in front.
-/

namespace DocPrologue

open Text (isBlank)

namespace Bytes

def OpensInterpreter (text : Bytes) : Prop :=
  ∃ gap byte rest, text = Attribute.mark ++ (gap ++ byte :: rest) ∧ IsGap gap ∧
    Byte.isGap byte = false ∧ byte ≠ Byte.openBracket

theorem isGap_of_suffix {text rest : Bytes} (suffix : rest <:+ text) (gap : IsGap text) :
    IsGap rest := fun byte member => gap byte (suffix.mem member)

theorem OpensInterpreter.startsWith {text : Bytes} (opens : OpensInterpreter text) :
    Bytes.startsWith Attribute.mark text = true := by
  obtain ⟨gap, byte, rest, shape, -⟩ := opens
  exact startsWith_iff.mpr ⟨_, shape⟩

theorem afterLine_suffix (text : Bytes) : afterLine text <:+ text :=
  ⟨wholeLine text, wholeLine_append_afterLine text⟩

theorem isGap_line {text : Bytes} (gap : IsGap text) : IsGap (line text) := by
  obtain ⟨rest, whole⟩ := exists_eq_line_append text
  intro byte member
  exact gap byte (whole ▸ List.mem_append_left rest member)

end Bytes

theorem Cursor.byteOrderMark_not_blank {text : Bytes}
    (marked : Bytes.startsWith byteOrderMark text = true) : isBlank (Bytes.line text) = false := by
  rw [← Bytes.startsWith_line _ _ (by decide) (by decide)] at marked
  obtain ⟨rest, shape⟩ := Bytes.startsWith_iff.mp marked
  rw [shape]
  unfold byteOrderMark
  rw [List.cons_append, isBlank]
  rfl

theorem Attribute.isGap_of_not_opens {more : Bytes} (closed : body? (mark ++ more) = none)
    (opens : ¬Bytes.OpensInterpreter (mark ++ more)) : Bytes.IsGap more := by
  obtain ⟨gap, isGap, shape⟩ := exists_gap more
  cases skipped : skipGap more with
  | nil =>
      rw [skipped, List.append_nil] at shape
      rwa [shape]
  | cons byte rest =>
      have token : Byte.isGap byte = false :=
        Bytes.noGap_dropWhile more byte (by rw [← skipGap, skipped]; rfl)
      rw [skipped] at shape
      refine absurd ⟨gap, byte, rest, by rw [shape], isGap, token, ?_⟩ opens
      rintro rfl
      have opened := body?_eq_some_iff.mpr ⟨gap, isGap, congrArg (mark ++ ·) shape⟩
      rw [closed] at opened
      contradiction

structure InterpreterLine where
  first : UInt8
  others : Bytes
  noGap : Byte.isGap first = false
  noBracket : first ≠ Byte.openBracket
  unbroken : Byte.lf ∉ others

namespace InterpreterLine

def body (line : InterpreterLine) : Bytes := Attribute.mark ++ line.first :: line.others

def text (line : InterpreterLine) : Bytes := line.body ++ [Byte.lf]

theorem not_mem_body (line : InterpreterLine) : Byte.lf ∉ line.body := by
  have first : Byte.lf ≠ line.first := by
    intro same
    have gap := line.noGap
    rw [← same] at gap
    contradiction
  have noMark : Byte.lf ∉ Attribute.mark := by decide
  simp [body, noMark, first, line.unbroken]

end InterpreterLine

structure BlankLine where
  body : Bytes
  unbroken : Byte.lf ∉ body
  blank : isBlank (Bytes.dropTrailing Byte.cr body) = true

namespace BlankLine

def text (line : BlankLine) : Bytes := line.body ++ [Byte.lf]

theorem text_append (line : BlankLine) (rest : Bytes) :
    line.text ++ rest = line.body ++ Byte.lf :: rest := by
  rw [text, List.append_assoc, List.singleton_append]

theorem isBlank_append (line : BlankLine) (rest : Bytes) :
    isBlank (Bytes.line (line.text ++ rest)) = true := by
  rw [text_append, Bytes.line_of_body line.unbroken]
  exact line.blank

end BlankLine

structure Trivia where
  isMarked : Bool
  interpreter : Option InterpreterLine
  blanks : List BlankLine

namespace Trivia

def lines (trivia : Trivia) : Bytes :=
  (trivia.interpreter.elim [] InterpreterLine.text) ++ trivia.blanks.flatMap BlankLine.text

def text (trivia : Trivia) : Bytes :=
  (if trivia.isMarked then Cursor.byteOrderMark else []) ++ trivia.lines

theorem lines_ended (trivia : Trivia) :
    trivia.lines = [] ∨ trivia.lines.getLast? = some Byte.lf := by
  unfold lines
  rcases List.eq_nil_or_concat trivia.blanks with empty | ⟨front, last, shape⟩
  · rw [empty, List.flatMap_nil, List.append_nil]
    cases trivia.interpreter with
    | none => exact .inl rfl
    | some line => exact .inr List.getLast?_concat
  · right
    simp [shape, BlankLine.text, List.getLast?_append]

theorem column_advance (trivia : Trivia) :
    (Place.start.advance trivia.text).column =
      1 + if trivia.text = Cursor.byteOrderMark then 3 else 0 := by
  by_cases marked : trivia.text = Cursor.byteOrderMark
  · rw [if_pos marked, marked]
    rfl
  · rw [if_neg marked]
    rcases trivia.lines_ended with empty | ended
    · have text : trivia.text = if trivia.isMarked then Cursor.byteOrderMark else [] := by
        rw [Trivia.text, empty, List.append_nil]
      rw [text] at marked ⊢
      split
      · rename_i isMarked
        exact absurd (if_pos isMarked) marked
      · rfl
    · apply Place.column_advance_ended
      rw [Trivia.text, List.getLast?_append, ended, Option.some_or]

end Trivia

namespace Cursor

theorem skipInterpreter_line (line : InterpreterLine) (name : Bytes) (place : Place)
    (rest : Bytes) :
    skipInterpreter ⟨name, place, line.text ++ rest⟩ =
      ⟨name, place.advance line.text, rest⟩ := by
  have whole : line.text ++ rest = line.body ++ Byte.lf :: rest := by
    rw [InterpreterLine.text, List.append_assoc, List.singleton_append]
  have marked : Bytes.startsWith Attribute.mark (line.text ++ rest) = true :=
    Bytes.startsWith_iff.mpr ⟨_, by rw [whole, InterpreterLine.body, List.append_assoc]⟩
  have closed : Attribute.body? (line.text ++ rest) = none := by
    rw [whole, InterpreterLine.body, List.append_assoc, Attribute.body?, Bytes.after?_append,
      Option.bind_some, Attribute.afterToken?, Attribute.skipGap, List.cons_append,
      List.dropWhile_cons_of_neg (by simp [line.noGap])]
    exact if_neg line.noBracket
  rw [skipInterpreter, if_pos ⟨marked, closed⟩, skipLine]
  simp only [whole, Bytes.wholeLine_of_body line.not_mem_body,
    Bytes.afterLine_of_body line.not_mem_body]
  rfl

theorem ofSource_marked (name rest : Bytes) :
    ofSource name (byteOrderMark ++ rest) =
      skipInterpreter ⟨name, Place.start.advance byteOrderMark, rest⟩ := by
  rw [ofSource, Bytes.after?_append]

theorem ofSource_unmarked {source : Bytes} (name : Bytes)
    (unmarked : Bytes.startsWith byteOrderMark source = false) :
    ofSource name source = skipInterpreter ⟨name, Place.start, source⟩ := by
  have absent : Bytes.after? byteOrderMark source = none :=
    Option.isNone_iff_eq_none.mp (by simpa [Bytes.startsWith] using unmarked)
  rw [ofSource, absent]

theorem not_marked_lines (trivia : Trivia) {source : Bytes}
    (unmarked : Bytes.startsWith byteOrderMark source = false) :
    Bytes.startsWith byteOrderMark (trivia.lines ++ source) = false := by
  unfold Trivia.lines
  cases trivia.interpreter with
  | none =>
      cases trivia.blanks with
      | nil => exact unmarked
      | cons line blanks =>
          apply Bool.eq_false_iff.mpr
          intro marked
          have visible := byteOrderMark_not_blank marked
          rw [Option.elim_none, List.nil_append, List.flatMap_cons, List.append_assoc,
            line.isBlank_append] at visible
          contradiction
  | some line => rfl

end Cursor

namespace Block.Scan

theorem result_of_gap {scan : Scan} (fresh : scan.active = none)
    (gap : Bytes.IsGap scan.cursor.rest) : scan.result = .ok scan.lines := by
  generalize size : scan.cursor.rest.length = length
  induction length using Nat.strongRecOn generalizing scan with
  | ind length ih =>
      by_cases empty : scan.cursor.rest = []
      · rw [result_eq, turn_of_rest_nil empty]
      · have blank := Text.isBlank_of_gap (Bytes.isGap_line gap)
        have form := (Cursor.peek_eq_blank_iff scan.cursor).mpr ⟨empty, blank⟩
        have same : scan.changesForm = false := by simp [changesForm, fresh]
        have goes := turn_of_blank same (Cursor.next_of_passage (.blank form)) rfl
        have lines : (scan.passBlank scan.cursor.skipLine).lines = scan.lines := by
          simp [passBlank, fresh]
        rw [result_of_goOn goes, ← lines]
        exact ih _ (size ▸ goOn_length goes) fresh
          (Bytes.isGap_of_suffix (Bytes.afterLine_suffix _) gap) rfl

theorem result_skipInterpreter {cursor : Cursor} (lines : List Bytes)
    (opens : ¬Bytes.OpensInterpreter cursor.rest) :
    result ⟨none, lines, cursor.skipInterpreter⟩ = result ⟨none, lines, cursor⟩ := by
  by_cases names : Bytes.startsWith Attribute.mark cursor.rest = true ∧
    Attribute.body? cursor.rest = none
  · obtain ⟨marked, closed⟩ := names
    obtain ⟨more, shape⟩ := Bytes.startsWith_iff.mp marked
    have gap : Bytes.IsGap more := Attribute.isGap_of_not_opens (shape ▸ closed) (shape ▸ opens)
    have unread : Bytes.afterLine cursor.rest = Bytes.afterLine more := by
      rw [shape, Bytes.afterLine, Attribute.mark, List.cons_append, List.cons_append,
        Bytes.dropWhile_line_cons (by decide), Bytes.dropWhile_line_cons (by decide)]
      rfl
    have gapBehind : Bytes.IsGap cursor.skipLine.rest := by
      rw [Cursor.skipLine, unread]
      exact Bytes.isGap_of_suffix (Bytes.afterLine_suffix more) gap
    have code : cursor.peek = .code := by
      rw [Cursor.peek_of_mark marked, closed]
      rfl
    rw [Cursor.skipInterpreter, if_pos ⟨marked, closed⟩, result_of_gap rfl gapBehind, result_eq,
      turn_of_code rfl (Cursor.next_of_passage (.code code)) rfl]
  · rw [Cursor.skipInterpreter, if_neg names]

theorem turn_blankLine (line : BlankLine) (active : Option Form) (lines : List Bytes)
    (name : Bytes) (place : Place) (rest : Bytes) :
    turn ⟨active, lines, ⟨name, place, line.text ++ rest⟩⟩ =
      .goOn ⟨active, if active.isSome then [] :: lines else lines,
        ⟨name, place.advance line.text, rest⟩⟩ := by
  have whole := line.text_append rest
  have form : Cursor.peek ⟨name, place, line.text ++ rest⟩ = .blank := by
    exact (Cursor.peek_eq_blank_iff _).mpr ⟨by simp [whole], line.isBlank_append rest⟩
  have same : changesForm ⟨active, lines, ⟨name, place, line.text ++ rest⟩⟩ = false := by
    cases active with
    | none => rfl
    | some active => simp [changesForm, form, Form.isDoc]
  rw [turn_of_blank same (Cursor.next_of_passage (.blank form)) rfl, Cursor.skipLine, whole,
    Bytes.wholeLine_of_body line.unbroken, Bytes.afterLine_of_body line.unbroken]
  rfl

theorem runs_blankLines (blanks : List BlankLine) (active : Option Form) (lines : List Bytes)
    (name : Bytes) (place : Place) (rest : Bytes) :
    Runs blanks.length ⟨active, lines, ⟨name, place, blanks.flatMap BlankLine.text ++ rest⟩⟩
      ⟨active, if active.isSome then List.replicate blanks.length [] ++ lines else lines,
        ⟨name, place.advance (blanks.flatMap BlankLine.text), rest⟩⟩ := by
  induction blanks generalizing lines place with
  | nil =>
      rw [List.length_nil, List.replicate_zero, List.nil_append, ite_self]
      exact .refl _
  | cons line blanks ih =>
      have goes := turn_blankLine line active lines name place
        (blanks.flatMap BlankLine.text ++ rest)
      rw [List.flatMap_cons, List.append_assoc, Place.advance_append]
      refine .step goes ?_
      have later := ih (if active.isSome then [] :: lines else lines) (place.advance line.text)
      cases active with
      | none => exact later
      | some active =>
          rw [List.length_cons, List.replicate_succ']
          simpa using later

theorem result_start {source : Bytes} (name : Bytes)
    (unmarked : Bytes.startsWith Cursor.byteOrderMark source = false)
    (opens : ¬Bytes.OpensInterpreter source) :
    (start name source).result = result ⟨none, [], ⟨name, Place.start, source⟩⟩ := by
  rw [start, Cursor.ofSource_unmarked name unmarked, result_skipInterpreter [] opens]

theorem result_lines (trivia : Trivia) {source : Bytes} (opens : ¬Bytes.OpensInterpreter source)
    (name : Bytes) (place : Place) :
    result ⟨none, [], Cursor.skipInterpreter ⟨name, place, trivia.lines ++ source⟩⟩ =
      result ⟨none, [], ⟨name, place.advance trivia.lines, source⟩⟩ := by
  have run := runs_blankLines trivia.blanks none [] name
  unfold Trivia.lines
  cases trivia.interpreter with
  | none =>
      have clear : ¬Bytes.OpensInterpreter (trivia.blanks.flatMap BlankLine.text ++ source) := by
        cases trivia.blanks with
        | nil => exact opens
        | cons line blanks =>
            intro starts
            have visible := Cursor.line_not_blank starts.startsWith (by decide) (by decide)
              (by decide) (by decide)
            rw [List.flatMap_cons, List.append_assoc, line.isBlank_append] at visible
            contradiction
      rw [Option.elim_none, List.nil_append, result_skipInterpreter [] clear]
      exact (run place source).result
  | some line =>
      rw [Option.elim_some, List.append_assoc, Cursor.skipInterpreter_line, Place.advance_append]
      exact (run _ source).result

theorem result_trivia (trivia : Trivia) {source : Bytes} (name : Bytes)
    (unmarked : Bytes.startsWith Cursor.byteOrderMark source = false)
    (opens : ¬Bytes.OpensInterpreter source) :
    (start name (trivia.text ++ source)).result =
      result ⟨none, [], ⟨name, Place.start.advance trivia.text, source⟩⟩ := by
  have skipped := result_lines trivia opens name
  unfold start Trivia.text
  cases trivia.isMarked with
  | true =>
      rw [if_pos rfl, List.append_assoc, Cursor.ofSource_marked, Place.advance_append]
      exact skipped _
  | false =>
      rw [if_neg (by decide), List.nil_append,
        Cursor.ofSource_unmarked name (Cursor.not_marked_lines trivia unmarked)]
      exact skipped _

end Block.Scan

namespace Block

/-- Behind leading text that does not count a source has the same prologue, or fails with the same
reason at the same spot. -/
theorem extract_trivia (name : Bytes) (trivia : Trivia) {source : Bytes}
    (unmarked : ¬Cursor.byteOrderMark <+: source) (opens : ¬Bytes.OpensInterpreter source) :
    (∀ block, extract name source = .ok block →
      extract name (trivia.text ++ source) = .ok block) ∧
    ∀ error, extract name source = .error error → ∃ moved,
      extract name (trivia.text ++ source) = .error moved ∧
        error.MovedBy trivia.text.length (trivia.text.count Byte.lf)
          (if trivia.text = Cursor.byteOrderMark ∧ error.position.line = 1 then 3 else 0)
          moved := by
  have noMark : Bytes.startsWith Cursor.byteOrderMark source = false := by
    apply Bool.eq_false_iff.mpr
    intro marked
    obtain ⟨rest, shape⟩ := Bytes.startsWith_iff.mp marked
    exact unmarked ⟨rest, shape.symm⟩
  have displaced : Scan.Displaced (Place.start.advance trivia.text) []
      ⟨none, [], ⟨name, Place.start, source⟩⟩
      ⟨none, [], ⟨name, Place.start.advance trivia.text, source⟩⟩ :=
    ⟨rfl, rfl, ⟨rfl, rfl, [], rfl, rfl⟩⟩
  have results := displaced.result
  rw [← Scan.result_start name noMark opens, ← Scan.result_trivia trivia name noMark opens]
    at results
  rw [Scan.extract_eq, Scan.extract_eq]
  generalize (Scan.start name source).result = alone at results ⊢
  generalize (Scan.start name (trivia.text ++ source)).result = behind at results ⊢
  cases results with
  | ok lines =>
      rw [List.append_nil]
      exact ⟨fun _ done => done, fun _ failed => by contradiction⟩
  | error faults =>
      refine ⟨fun _ done => by contradiction, ?_⟩
      rintro error ⟨⟩
      refine ⟨_, rfl, ?_⟩
      have moved := faults.movedBy trivia.column_advance
      by_cases marked : trivia.text = Cursor.byteOrderMark
      · simpa only [marked, if_true, true_and] using moved
      · simpa only [marked, if_false, false_and, ite_self] using moved

theorem extract_trivia_unterminated :
    let source : Bytes := Text.utf8 "/*! a"
    let fault : Malformed := ⟨⟨[], 0, 1, 1⟩, .unterminatedBlock⟩
    let mark : Trivia := ⟨true, none, []⟩
    let full : Trivia := ⟨true,
      some ⟨Byte.slash, Text.utf8 "bin/sh", by decide, by decide, by decide⟩,
      [⟨[], by decide, Text.isBlank_nil⟩]⟩
    ¬Cursor.byteOrderMark <+: source ∧ ¬Bytes.OpensInterpreter source ∧
    extract [] source = .error fault ∧
    (∃ moved, extract [] (mark.text ++ source) = .error moved ∧ fault.MovedBy 3 0 3 moved) ∧
    ∃ moved, extract [] (full.text ++ source) = .error moved ∧ fault.MovedBy 14 2 0 moved := by
  intro source fault mark full
  have unmarked : ¬Cursor.byteOrderMark <+: source := by decide
  have opens : ¬Bytes.OpensInterpreter source := fun opens =>
    absurd opens.startsWith (by decide)
  have failed : extract [] source = .error fault := by decide +kernel
  exact ⟨unmarked, opens, failed, (extract_trivia [] mark unmarked opens).2 fault failed,
    (extract_trivia [] full unmarked opens).2 fault failed⟩

end Block

end DocPrologue
