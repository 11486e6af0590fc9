import Mathlib.Data.List.TakeWhile
import DocPrologue.DocComment
import DocPrologue.Proofs.Paths

/-!
Comments of commands. Reading a source line by line gives back the lines that were written between
the delimiters, whatever stands around them. Of any source, the comment is what stands behind the
first opening line and in front of the first closing one, and only a line in front of the closing
one can be too long.
-/

namespace DocPrologue.DocComment

variable {source line rest : Bytes} {lines : List Bytes}

inductive HasLines : Bytes → List Bytes → Prop
  | nil : HasLines [] []
  | last {line : Bytes} : line ≠ [] → Byte.lf ∉ line → HasLines line [line]
  | ended {line rest : Bytes} {lines : List Bytes} : Byte.lf ∉ line → HasLines rest lines →
      HasLines (line ++ Byte.lf :: rest) (line :: lines)

theorem sourceLines_ended (inside : Byte.lf ∉ line) (rest : Bytes) :
    sourceLines (line ++ Byte.lf :: rest) = line :: sourceLines rest := by
  obtain ⟨first, others, shape⟩ := List.exists_cons_of_ne_nil (Bytes.split_ne_nil Byte.lf rest)
  rw [sourceLines, sourceLines, Bytes.split_append _ _ inside, shape, List.getLast?_cons_cons]
  split <;> rfl

theorem sourceLines_last (filled : line ≠ []) (inside : Byte.lf ∉ line) :
    sourceLines line = [line] := by
  rw [sourceLines, Bytes.split_of_not_mem inside]
  exact if_neg (by simpa using filled)

theorem hasLines_iff : HasLines source lines ↔ sourceLines source = lines := by
  constructor
  · intro has
    induction has with
    | nil => rfl
    | last filled inside => exact sourceLines_last filled inside
    | ended inside _ ih => rw [sourceLines_ended inside, ih]
  · rintro rfl
    generalize size : source.length = length
    induction length using Nat.strongRecOn generalizing source with
    | ind length ih =>
        by_cases feed : Byte.lf ∈ source
        · obtain ⟨line, rest, rfl, inside⟩ := List.eq_append_cons_of_mem feed
          rw [sourceLines_ended inside]
          simp only [List.length_append, List.length_cons] at size
          exact .ended inside (ih rest.length (by omega) rfl)
        · by_cases empty : source = []
          · subst empty
            exact .nil
          · rw [sourceLines_last empty feed]
            exact .last empty feed

def textOf (line : Bytes) : Bytes := Bytes.dropTrailing Byte.cr line

def upToClosing (lines : List Bytes) : List Bytes :=
  lines.takeWhile fun line => textOf line != closing

def Readable (lines : List Bytes) : Prop := ∀ line ∈ upToClosing lines, line.length < maxLine

instance (lines : List Bytes) : Decidable (Readable lines) :=
  inferInstanceAs (Decidable (∀ line ∈ upToClosing lines, line.length < maxLine))

/-- The comment of some lines: what stands behind the first opening one, up to a closing one.
Further openings do not belong to it. -/
def commentOf (lines : List Bytes) : List Bytes :=
  (((upToClosing lines).map textOf).dropWhile (· != opening)).filter (· != opening)

def kept : (inside : Bool) → List Bytes → List Bytes
  | true, texts => texts.filter (· != opening)
  | false, texts => (texts.dropWhile (· != opening)).filter (· != opening)

def ended (lines : List Bytes) : Bytes := lines.flatMap fun line => line ++ [Byte.lf]

theorem upToClosing_of_closing (closes : textOf line = closing) :
    upToClosing (line :: lines) = [] := by
  simp [upToClosing, closes]

theorem upToClosing_cons (goesOn : textOf line ≠ closing) :
    upToClosing (line :: lines) = line :: upToClosing lines := by
  simp [upToClosing, goesOn]

theorem readable_cons (goesOn : textOf line ≠ closing) :
    Readable (line :: lines) ↔ line.length < maxLine ∧ Readable lines := by
  rw [Readable, upToClosing_cons goesOn, List.forall_mem_cons]
  rfl

theorem length_lt_of_closing (closes : textOf line = closing) : line.length < maxLine := by
  have bound : line.length ≤ (textOf line).length + 1 := by
    rcases Bytes.dropTrailing_eq_or Byte.cr line with same | longer
    · rw [textOf, same]
      omega
    · exact Nat.le_of_eq (congrArg List.length longer |>.trans List.length_append)
  rw [closes] at bound
  exact Nat.lt_of_le_of_lt bound (by decide)

theorem kept_cons (inside : Bool) (text : Bytes) (texts : List Bytes) :
    kept inside (text :: texts) =
      if text = opening then kept true texts
      else if inside then text :: kept inside texts
      else kept inside texts := by
  cases inside <;> by_cases opens : text = opening <;> simp [kept, opens]

theorem commentLines_cons (inside : Bool) (line : Bytes) (lines : List Bytes) :
    commentLines inside (line :: lines) =
      if maxLine ≤ line.length then .error .lineTooLong
      else if textOf line = opening then commentLines true lines
      else if textOf line = closing then .ok []
      else if inside then (commentLines inside lines).map (textOf line :: ·)
      else commentLines inside lines := by
  rw [commentLines, textOf]
  cases commentLines inside lines <;> rfl

theorem commentLines_of_readable (inside : Bool) (readable : Readable lines) :
    commentLines inside lines = .ok (kept inside ((upToClosing lines).map textOf)) := by
  induction lines generalizing inside with
  | nil => cases inside <;> rfl
  | cons line lines ih =>
      rw [commentLines_cons]
      by_cases closes : textOf line = closing
      · have differs : closing ≠ opening := by decide
        rw [if_neg (Nat.not_le.mpr (length_lt_of_closing closes)), closes, if_neg differs,
          if_pos rfl, upToClosing_of_closing closes]
        cases inside <;> rfl
      · obtain ⟨short, others⟩ := (readable_cons closes).mp readable
        rw [if_neg (Nat.not_le.mpr short), if_neg closes, ih true others, ih inside others,
          upToClosing_cons closes, List.map_cons, kept_cons]
        split
        · rfl
        · split <;> rfl

theorem commentLines_of_not_readable (inside : Bool) (unreadable : ¬ Readable lines) :
    commentLines inside lines = .error .lineTooLong := by
  induction lines generalizing inside with
  | nil => exact absurd (by simp [Readable, upToClosing]) unreadable
  | cons line lines ih =>
      rw [commentLines_cons]
      by_cases long : maxLine ≤ line.length
      · exact if_pos long
      · have goesOn : textOf line ≠ closing := by
          intro closes
          exact unreadable (by simp [Readable, upToClosing_of_closing closes])
        have others : ¬ Readable lines := fun readable =>
          unreadable ((readable_cons goesOn).mpr ⟨Nat.not_le.mp long, readable⟩)
        rw [if_neg long, if_neg goesOn, ih true others, ih inside others]
        split
        · rfl
        · split <;> rfl

theorem parse_eq (has : HasLines source lines) :
    parse source =
      if Readable lines then .ok (ended (commentOf lines)) else .error .lineTooLong := by
  rw [parse, hasLines_iff.mp has]
  by_cases readable : Readable lines
  · rw [commentLines_of_readable false readable, if_pos readable]
    rfl
  · rw [commentLines_of_not_readable false readable, if_neg readable]

theorem commentOf_of_not_opened (unopened : opening ∉ (upToClosing lines).map textOf) :
    commentOf lines = [] := by
  have passed : ((upToClosing lines).map textOf).dropWhile (· != opening) = [] := by
    rw [List.dropWhile_eq_nil_iff]
    intro text member
    simpa using fun same : text = opening => unopened (same ▸ member)
  rw [commentOf, passed]
  rfl

structure Plain (line : Bytes) : Prop where
  noFeed : Byte.lf ∉ line
  noReturn : line.getLast? ≠ some Byte.cr
  short : line.length < maxLine
  notOpening : line ≠ opening
  notClosing : line ≠ closing

theorem Plain.textOf_eq (plain : Plain line) : textOf line = line :=
  Bytes.dropTrailing_of_getLast? plain.noReturn

theorem map_textOf (plain : ∀ line ∈ lines, Plain line) : lines.map textOf = lines :=
  List.map_congr_left (fun line member => (plain line member).textOf_eq) |>.trans lines.map_id

theorem sourceLines_append (noFeed : ∀ line ∈ lines, Byte.lf ∉ line) (rest : Bytes) :
    sourceLines (ended lines ++ rest) = lines ++ sourceLines rest := by
  induction lines with
  | nil => rfl
  | cons line lines ih =>
      obtain ⟨inside, others⟩ := List.forall_mem_cons.mp noFeed
      rw [ended, List.flatMap_cons, List.append_assoc, List.append_assoc, List.singleton_append,
        sourceLines_ended inside, List.cons_append, ← ih others]
      rfl

section Written

variable {header body : List Bytes}

def written (header body : List Bytes) : List Bytes := header ++ opening :: body ++ [closing]

theorem not_mem_written (plain : ∀ line ∈ header ++ body, Plain line) :
    ∀ line ∈ written header body, Byte.lf ∉ line := by
  intro line member
  rw [written, List.mem_append, List.mem_append, List.mem_cons, List.mem_singleton] at member
  rcases member with (before | rfl | within) | rfl
  · exact (plain line (List.mem_append_left _ before)).noFeed
  · decide
  · exact (plain line (List.mem_append_right _ within)).noFeed
  · decide

theorem upToClosing_written (plain : ∀ line ∈ header ++ body, Plain line) (others : List Bytes) :
    upToClosing (written header body ++ others) = header ++ opening :: body := by
  have passed : ∀ line ∈ header ++ opening :: body, (textOf line != closing) = true := by
    intro line member
    rw [List.mem_append, List.mem_cons] at member
    rcases member with before | rfl | within
    · have around := plain line (List.mem_append_left _ before)
      simpa [around.textOf_eq] using around.notClosing
    · decide
    · have inside := plain line (List.mem_append_right _ within)
      simpa [inside.textOf_eq] using inside.notClosing
  rw [upToClosing, written, List.append_assoc, List.takeWhile_append_of_pos passed,
    List.singleton_append, List.takeWhile_cons_of_neg (by decide), List.append_nil]

theorem readable_written (plain : ∀ line ∈ header ++ body, Plain line) (others : List Bytes) :
    Readable (written header body ++ others) := by
  intro line member
  rw [upToClosing_written plain, List.mem_append, List.mem_cons] at member
  rcases member with before | rfl | within
  · exact (plain line (List.mem_append_left _ before)).short
  · decide
  · exact (plain line (List.mem_append_right _ within)).short

theorem commentOf_written (plain : ∀ line ∈ header ++ body, Plain line) (others : List Bytes) :
    commentOf (written header body ++ others) = body := by
  obtain ⟨around, inside⟩ := List.forall_mem_append.mp plain
  have passed : ∀ line ∈ header, (line != opening) = true := fun line member => by
    simpa using (around line member).notOpening
  have stays : ∀ line ∈ body, (line != opening) = true := fun line member => by
    simpa using (inside line member).notOpening
  rw [commentOf, upToClosing_written plain, List.map_append, List.map_cons, map_textOf around,
    map_textOf inside, List.dropWhile_append_of_pos passed,
    List.dropWhile_cons_of_neg (by decide), List.filter_cons_of_neg (by decide),
    List.filter_eq_self.mpr stays]

theorem parse_written_before (plain : ∀ line ∈ header ++ body, Plain line) (after : Bytes) :
    parse (ended (written header body) ++ after) = .ok (ended body) := by
  have has : HasLines (ended (written header body) ++ after)
      (written header body ++ sourceLines after) :=
    hasLines_iff.mpr (sourceLines_append (not_mem_written plain) after)
  rw [parse_eq has, if_pos (readable_written plain _), commentOf_written plain]

end Written

/-- Reading is inverse to writing: a comment that stands between delimiters is given back, whatever
is behind it. Of any source, the lines up to the first one that closes a comment decide; if all of
them are short, the comment is what stands behind the first opening of them. -/
theorem parse_written :
    (∀ header body after, (∀ line ∈ header ++ body, Plain line) →
      parse (ended (header ++ opening :: body ++ [closing]) ++ after) = .ok (ended body)) ∧
    (∀ source, ∃ lines, HasLines source lines) ∧
    ∀ source lines, HasLines source lines →
      (Readable lines → parse source = .ok (ended (commentOf lines)) ∧
        (opening ∉ (upToClosing lines).map textOf → parse source = .ok [])) ∧
      (¬ Readable lines → parse source = .error .lineTooLong) := by
  refine ⟨fun header body after plain => parse_written_before plain after,
    fun source => ⟨_, hasLines_iff.mpr rfl⟩, ?_⟩
  intro source lines has
  have read := parse_eq has
  refine ⟨fun readable => ?_, fun unreadable => by rw [read, if_neg unreadable]⟩
  rw [if_pos readable] at read
  refine ⟨read, fun unopened => ?_⟩
  rw [read, commentOf_of_not_opened unopened]
  rfl

theorem parse_written_tool :
    let header := [Text.utf8 "// Tool.", []]
    let body := [Text.utf8 "Tool prints.", [], Text.utf8 "\ttool /*"]
    let after := Text.utf8 "package main\n" ++ List.replicate maxLine Byte.space
    let reversed := Text.utf8 "*/\r\n/*\nlost"
    let lines := [Text.utf8 "*/\r", opening, Text.utf8 "lost"]
    ((∀ line ∈ header ++ body, Plain line) ∧ HasLines reversed lines ∧ Readable lines ∧
      opening ∉ (upToClosing lines).map textOf) ∧
    parse (ended (header ++ opening :: body ++ [closing]) ++ after) = .ok (ended body) ∧
    parse reversed = .ok [] := by
  intro header body after reversed lines
  have plain : ∀ line ∈ header ++ body, Plain line := by
    have around : Plain (Text.utf8 "// Tool.") := by constructor <;> decide
    have empty : Plain [] := by constructor <;> decide
    have first : Plain (Text.utf8 "Tool prints.") := by constructor <;> decide
    have last : Plain (Text.utf8 "\ttool /*") := by constructor <;> decide
    simp only [header, body, List.cons_append, List.nil_append, List.forall_mem_cons]
    exact ⟨around, empty, first, empty, last, by simp⟩
  have has : HasLines reversed lines := hasLines_iff.mpr (by decide)
  have readable : Readable lines := by decide
  have unopened : opening ∉ (upToClosing lines).map textOf := by decide
  obtain ⟨writes, -, reads⟩ := parse_written
  exact ⟨⟨plain, has, readable, unopened⟩, writes header body after plain,
    ((reads reversed lines has).1 readable).2 unopened⟩

end DocPrologue.DocComment
