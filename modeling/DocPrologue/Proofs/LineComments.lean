import DocPrologue.Proofs.Regions
import DocPrologue.Proofs.Scan

/-!
Prologues of line comments, read line by line. Without its byte order mark and interpreter line a
source is a list of physical lines; behind leading blank ones the longest run of blank lines and
line comments is its prologue. Here this plain reading is defined, and a scan is shown to give the
same.
-/

namespace DocPrologue

open Text (isBlank)

namespace Bytes

def lines (text : Bytes) : List Bytes := (split Byte.lf text).map (dropTrailing Byte.cr)

theorem lines_of_feed {text : Bytes} (feed : Byte.lf ∈ text) :
    lines text = line text :: lines (afterLine text) := by
  obtain ⟨body, rest, rfl, inside⟩ := List.eq_append_cons_of_mem feed
  rw [lines, split_append _ _ inside, List.map_cons, line_of_body inside, afterLine_of_body inside]
  rfl

theorem lines_of_no_feed {text : Bytes} (noFeed : Byte.lf ∉ text) : lines text = [line text] := by
  have whole : (text ++ []).takeWhile (· != Byte.lf) = text ++ [] := by
    apply List.takeWhile_append_of_pos
    intro byte member
    simpa using fun same : byte = Byte.lf => noFeed (same ▸ member)
  rw [List.append_nil] at whole
  rw [lines, split_of_not_mem noFeed, line, whole]
  rfl

theorem exists_lines_cons (text : Bytes) : ∃ others, lines text = line text :: others := by
  by_cases feed : Byte.lf ∈ text
  · exact ⟨_, lines_of_feed feed⟩
  · exact ⟨_, lines_of_no_feed feed⟩

theorem afterLine_of_no_feed {text : Bytes} (noFeed : Byte.lf ∉ text) : afterLine text = [] := by
  rcases wholeLine_ended text with ended | empty
  · have member : Byte.lf ∈ wholeLine text ++ afterLine text :=
      List.mem_append_left _ (List.mem_of_getLast? ended)
    rw [wholeLine_append_afterLine] at member
    exact absurd member noFeed
  · exact empty

def namesInterpreter (text : Bytes) : Bool :=
  startsWith Attribute.mark text &&
    ((text.drop Attribute.mark.length).dropWhile Byte.isGap).head? != some Byte.openBracket

def withoutPreamble (source : Bytes) : Bytes :=
  let text := (after? Cursor.byteOrderMark source).getD source
  if namesInterpreter text then afterLine text else text

theorem namesInterpreter_iff {text : Bytes} :
    namesInterpreter text = true ↔
      startsWith Attribute.mark text = true ∧ Attribute.body? text = none := by
  rw [namesInterpreter, Bool.and_eq_true]
  apply and_congr_right
  intro marked
  obtain ⟨rest, rfl⟩ := startsWith_iff.mp marked
  rw [List.drop_left, Attribute.body?, after?_append, Option.bind_some, Attribute.afterToken?,
    Attribute.skipGap]
  cases rest.dropWhile Byte.isGap with
  | nil => simp
  | cons byte rest => simp

end Bytes

theorem Cursor.ofSource_rest (name source : Bytes) :
    (ofSource name source).rest = Bytes.withoutPreamble source := by
  have skip (cursor : Cursor) : cursor.skipInterpreter.rest =
      if Bytes.namesInterpreter cursor.rest then Bytes.afterLine cursor.rest else cursor.rest := by
    simp only [skipInterpreter, Bytes.namesInterpreter_iff]
    split <;> rfl
  unfold ofSource Bytes.withoutPreamble
  split
  · rename_i rest marked
    rw [skip, marked]
    rfl
  · rename_i absent
    rw [skip, absent]
    rfl

namespace Block

def inLineRun (line : Bytes) : Bool := isBlank line || Bytes.startsWith Comment.lineMark line

def lineRunText (line : Bytes) : Bytes :=
  if isBlank line then []
  else Bytes.dropLeading Byte.space (line.drop Comment.lineMark.length)

def lineRun (lines : List Bytes) : List Bytes := (lines.takeWhile inLineRun).map lineRunText

def ofLines (lines : List Bytes) : Block :=
  ((lineRun (lines.dropWhile isBlank)).reverse.dropWhile isBlank).reverse

theorem lineRun_cons {line : Bytes} (inside : inLineRun line = true) (lines : List Bytes) :
    lineRun (line :: lines) = lineRunText line :: lineRun lines := by
  rw [lineRun, List.takeWhile_cons_of_pos inside, List.map_cons]
  rfl

theorem lineRun_cons_of_not {line : Bytes} (outside : inLineRun line = false)
    (lines : List Bytes) : lineRun (line :: lines) = [] := by
  rw [lineRun, List.takeWhile_cons_of_neg (by simp [outside]), List.map_nil]

namespace Scan

theorem turn_of_rest_nil {scan : Scan} (empty : scan.cursor.rest = []) :
    scan.turn = .endOfInput := by
  have form := (Cursor.peek_eq_endOfInput_iff scan.cursor).mpr empty
  have same : scan.changesForm = false := by
    cases active : scan.active <;> simp [changesForm, form, active, Form.isDoc]
  rw [turn, if_neg (by simp [same]), Cursor.next, form]

theorem next_of_lineComment {cursor : Cursor}
    (marked : Bytes.startsWith Comment.lineMark (Bytes.line cursor.rest) = true) :
    cursor.next = .ok (⟨.lineComment, cursor.position, [lineRunText (Bytes.line cursor.rest)],
      false⟩, cursor.skipLine) := by
  have visible := Text.isBlank_of_startsWith marked (by decide) (by decide)
  rw [Bytes.startsWith_line _ _ (by decide) (by decide)] at marked
  rw [Cursor.next_of_passage (.lineComment ((Cursor.peek_eq_lineComment_iff cursor).mpr marked)),
    lineRunText, if_neg (by simp [visible])]
  rfl

theorem turn_lineRun {scan : Scan} (active : scan.active = some .lineComment)
    (more : scan.cursor.rest ≠ []) :
    scan.turn =
      if inLineRun (Bytes.line scan.cursor.rest) then
        .goOn ⟨some .lineComment, lineRunText (Bytes.line scan.cursor.rest) :: scan.lines,
          scan.cursor.skipLine⟩
      else .inFront := by
  by_cases blank : isBlank (Bytes.line scan.cursor.rest) = true
  · have form := (Cursor.peek_eq_blank_iff scan.cursor).mpr ⟨more, blank⟩
    have same : scan.changesForm = false := by simp [changesForm, active, form, Form.isDoc]
    rw [turn_of_blank same (Cursor.next_of_passage (.blank form)) rfl, passBlank, active]
    simp [inLineRun, lineRunText, blank]
  · by_cases marked : Bytes.startsWith Comment.lineMark (Bytes.line scan.cursor.rest) = true
    · have form := (Cursor.peek_eq_lineComment_iff scan.cursor).mpr
        (by rwa [← Bytes.startsWith_line _ _ (by decide) (by decide)])
      have same : scan.changesForm = false := by simp [changesForm, active, form]
      rw [turn_of_doc same (next_of_lineComment marked) rfl, if_neg (by simp), if_pos (by
        simp [inLineRun, marked])]
      rfl
    · have outside : inLineRun (Bytes.line scan.cursor.rest) = false := by
        simp [inLineRun, blank, marked]
      rw [outside, if_neg (by simp)]
      cases form : scan.cursor.peek with
      | endOfInput => exact absurd ((Cursor.peek_eq_endOfInput_iff _).mp form) more
      | blank => exact absurd ((Cursor.peek_eq_blank_iff _).mp form).2 blank
      | lineComment =>
          have starts := (Cursor.peek_eq_lineComment_iff _).mp form
          rw [← Bytes.startsWith_line _ _ (by decide) (by decide)] at starts
          exact absurd starts marked
      | code =>
          have same : scan.changesForm = false := by simp [changesForm, active, form, Form.isDoc]
          exact turn_of_code same (Cursor.next_of_passage (.code form)) rfl
      | blockComment => exact turn_of_changesForm (by simp [changesForm, active, form, Form.isDoc])
      | docAttribute => exact turn_of_changesForm (by simp [changesForm, active, form, Form.isDoc])

def SameShown (first second : List Bytes) : Prop :=
  first.dropWhile isBlank = second.dropWhile isBlank

theorem sameShown_blank (gathered : List Bytes) :
    SameShown ((lineRun (Bytes.lines [])).reverse ++ gathered) gathered := by
  have inside : inLineRun [] = true := by simp [inLineRun, Text.isBlank_nil]
  have alone : lineRun (Bytes.lines []) = [[]] := by
    rw [show Bytes.lines [] = [[]] from rfl, lineRun_cons inside]
    simp [lineRun, lineRunText, Text.isBlank_nil]
  rw [alone]
  exact List.dropWhile_cons_of_pos Text.isBlank_nil

/-- A last line without a line feed is followed by no other line, where a scan finds an empty
one. -/
theorem sameShown_lineRun (text : Bytes) (gathered : List Bytes) :
    SameShown ((lineRun (Bytes.lines text)).reverse ++ gathered)
      (if text = [] then gathered
        else if inLineRun (Bytes.line text) then
          (lineRun (Bytes.lines (Bytes.afterLine text))).reverse ++
            lineRunText (Bytes.line text) :: gathered
        else gathered) := by
  split
  · rename_i empty
    rw [empty]
    exact sameShown_blank gathered
  · by_cases inside : inLineRun (Bytes.line text) = true
    · rw [if_pos inside]
      by_cases feed : Byte.lf ∈ text
      · rw [Bytes.lines_of_feed feed, lineRun_cons inside, List.reverse_cons, List.append_assoc]
        rfl
      · rw [Bytes.lines_of_no_feed feed, Bytes.afterLine_of_no_feed feed, lineRun_cons inside]
        exact (sameShown_blank _).symm
    · rw [if_neg inside]
      have outside : inLineRun (Bytes.line text) = false := by simpa using inside
      have stops : lineRun (Bytes.lines text) = [] := by
        by_cases feed : Byte.lf ∈ text
        · rw [Bytes.lines_of_feed feed, lineRun_cons_of_not outside]
        · rw [Bytes.lines_of_no_feed feed, lineRun_cons_of_not outside]
      rw [stops]
      rfl

theorem result_lineRun (scan : Scan) (active : scan.active = some .lineComment) :
    ∃ lines, scan.result = .ok lines ∧
      SameShown lines ((lineRun (Bytes.lines scan.cursor.rest)).reverse ++ scan.lines) := by
  generalize size : scan.cursor.rest.length = length
  induction length using Nat.strongRecOn generalizing scan with
  | ind length ih =>
      have shown := sameShown_lineRun scan.cursor.rest scan.lines
      by_cases empty : scan.cursor.rest = []
      · refine ⟨scan.lines, by rw [result_eq, turn_of_rest_nil empty], ?_⟩
        rw [if_pos empty] at shown
        exact shown.symm
      · have turn := turn_lineRun active empty
        rw [if_neg empty] at shown
        by_cases inside : inLineRun (Bytes.line scan.cursor.rest) = true
        · rw [if_pos inside] at turn shown
          have shorter := Bytes.afterLine_length_lt empty
          obtain ⟨lines, result, same⟩ := ih _ (size ▸ shorter)
            ⟨some .lineComment, lineRunText (Bytes.line scan.cursor.rest) :: scan.lines,
              scan.cursor.skipLine⟩ rfl rfl
          refine ⟨lines, by rw [result_of_goOn turn, result], ?_⟩
          exact same.trans shown.symm
        · rw [if_neg inside] at turn shown
          exact ⟨scan.lines, by rw [result_eq, turn], shown.symm⟩

theorem result_leading (scan : Scan) (fresh : scan.active = none) (clear : scan.lines = [])
    {first : Bytes}
    (head : ((Bytes.lines scan.cursor.rest).dropWhile isBlank).head? = some first)
    (marked : Bytes.startsWith Comment.lineMark first = true) :
    ∃ lines, scan.result = .ok lines ∧
      SameShown lines (lineRun ((Bytes.lines scan.cursor.rest).dropWhile isBlank)).reverse := by
  generalize size : scan.cursor.rest.length = length
  induction length using Nat.strongRecOn generalizing scan with
  | ind length ih =>
      by_cases blank : isBlank (Bytes.line scan.cursor.rest) = true
      · -- Behind a last blank line there would be no first line with anything on it.
        have feed : Byte.lf ∈ scan.cursor.rest := by
          apply Classical.byContradiction
          intro noFeed
          rw [Bytes.lines_of_no_feed noFeed, List.dropWhile_cons_of_pos blank] at head
          contradiction
        have more := List.ne_nil_of_mem feed
        have form := (Cursor.peek_eq_blank_iff scan.cursor).mpr ⟨more, blank⟩
        have same : scan.changesForm = false := by simp [changesForm, fresh]
        have turn := turn_of_blank same (Cursor.next_of_passage (.blank form)) rfl
        rw [Bytes.lines_of_feed feed, List.dropWhile_cons_of_pos blank] at head ⊢
        rw [result_of_goOn turn]
        exact ih _ (size ▸ Bytes.afterLine_length_lt more) (scan.passBlank _) fresh
          (by simp [passBlank, fresh, clear]) head rfl
      · have visible : ((Bytes.lines scan.cursor.rest).dropWhile isBlank) =
            Bytes.lines scan.cursor.rest := by
          obtain ⟨others, shape⟩ := Bytes.exists_lines_cons scan.cursor.rest
          rw [shape, List.dropWhile_cons_of_neg blank]
        have starts : Bytes.startsWith Comment.lineMark (Bytes.line scan.cursor.rest) = true := by
          obtain ⟨others, shape⟩ := Bytes.exists_lines_cons scan.cursor.rest
          rw [visible, shape, List.head?_cons, Option.some.injEq] at head
          rwa [head]
        have more : scan.cursor.rest ≠ [] := by
          intro empty
          rw [empty] at starts
          contradiction
        have same : scan.changesForm = false := by simp [changesForm, fresh]
        have turn := turn_of_doc same (next_of_lineComment starts) rfl
        rw [if_neg (by simp)] at turn
        obtain ⟨next, goes, active, gathered, unread⟩ : ∃ next, scan.turn = .goOn next ∧
            next.active = some .lineComment ∧
            next.lines = [lineRunText (Bytes.line scan.cursor.rest)] ∧
            next.cursor.rest = Bytes.afterLine scan.cursor.rest :=
          ⟨_, turn, rfl, by rw [passDoc, clear]; rfl, rfl⟩
        obtain ⟨lines, result, shown⟩ := result_lineRun next active
        have run := sameShown_lineRun scan.cursor.rest []
        rw [if_neg more, if_pos (by simp [inLineRun, starts]), List.append_nil] at run
        rw [gathered, unread] at shown
        refine ⟨lines, by rw [result_of_goOn goes, result], ?_⟩
        rw [visible]
        exact shown.trans run.symm

end Scan

/-- A source whose first line that is not blank is a line comment always has a prologue, and it is
the run of line comments read line by line. -/
theorem extract_ofLines (name source : Bytes)
    (starts : ∃ first, ((Bytes.lines (Bytes.withoutPreamble source)).dropWhile isBlank).head? =
      some first ∧ Bytes.startsWith Comment.lineMark first = true) :
    extract name source = .ok (ofLines (Bytes.lines (Bytes.withoutPreamble source))) := by
  obtain ⟨first, head, marked⟩ := starts
  rw [← Cursor.ofSource_rest name source] at head ⊢
  obtain ⟨lines, result, shown⟩ :=
    Scan.result_leading (Scan.start name source) rfl rfl head marked
  rw [Scan.extract_eq, result]
  simp only [ofLines]
  rw [show lines.dropWhile isBlank = _ from shown]
  rfl

theorem extract_ofLines_preamble :
    let source : Bytes := Cursor.byteOrderMark ++
      Text.utf8 "#!/bin/sh\n\t\n//! a\r\n\r\n//!  b\n//! \n\nfn\n//! c"
    (((Bytes.lines (Bytes.withoutPreamble source)).dropWhile isBlank).head? =
        some (Text.utf8 "//! a") ∧
      Bytes.startsWith Comment.lineMark (Text.utf8 "//! a") = true) ∧
    extract [] source = .ok (ofLines (Bytes.lines (Bytes.withoutPreamble source))) ∧
    ofLines (Bytes.lines (Bytes.withoutPreamble source)) =
      [Text.utf8 "a", [], Text.utf8 " b"] := by
  intro source
  have head : ((Bytes.lines (Bytes.withoutPreamble source)).dropWhile isBlank).head? =
      some (Text.utf8 "//! a") := by decide +kernel
  have marked : Bytes.startsWith Comment.lineMark (Text.utf8 "//! a") = true := by decide
  exact ⟨⟨head, marked⟩, extract_ofLines [] source ⟨_, head, marked⟩, by decide +kernel⟩

end Block

end DocPrologue
