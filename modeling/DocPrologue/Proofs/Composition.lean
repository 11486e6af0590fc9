import DocPrologue.Proofs.Lookahead
import DocPrologue.Proofs.Trivia

/-!
Sources one behind the other. A scan that reaches the end of a source reads the same from it when
more follows, so it goes on behind the source as if it had just begun there, with the form and the
lines it has: blank lines count once each, documentation in the same form is added, and in another
form it ends the prologue.
-/

namespace DocPrologue

open Text (isBlank)

namespace Cursor

theorem ofSource_of_doc {name source : Bytes}
    (doc : (peek ⟨name, Place.start, source⟩).isDoc = true) :
    ofSource name source = ⟨name, Place.start, source⟩ := by
  obtain ⟨byte, rest, shape, other⟩ : ∃ byte rest, source = byte :: rest ∧ byte ≠ 0xEF := by
    cases form : peek ⟨name, Place.start, source⟩ with
    | endOfInput | code | blank => simp [form, Form.isDoc] at doc
    | lineComment =>
        obtain ⟨rest, shape⟩ := Bytes.startsWith_iff.mp ((peek_eq_lineComment_iff _).mp form)
        exact ⟨_, _, shape, by decide⟩
    | blockComment =>
        obtain ⟨rest, shape⟩ := Bytes.startsWith_iff.mp ((peek_eq_blockComment_iff _).mp form)
        exact ⟨_, _, shape, by decide⟩
    | docAttribute =>
        obtain ⟨rest, shape⟩ := Bytes.startsWith_iff.mp
          (Attribute.startsWith_of_body? ((peek_eq_docAttribute_iff _).mp form))
        exact ⟨_, _, shape, by decide⟩
  have unmarked : Bytes.startsWith byteOrderMark source = false := by
    rw [shape, Bytes.startsWith, byteOrderMark, Bytes.after?, if_neg other]
    rfl
  rw [ofSource_unmarked name unmarked, skipInterpreter, if_neg]
  rintro ⟨marked, closed⟩
  rw [peek_of_mark marked, closed] at doc
  contradiction

end Cursor

theorem Malformed.Displaced.movedBy_feeds {error moved : Malformed} {first : Bytes}
    (ended : first.getLast? = some Byte.lf) (feeds : Nat)
    (displaced :
      error.Displaced (Place.start.advance (first ++ List.replicate feeds Byte.lf)) moved) :
    error.MovedBy (first.length + feeds) (first.count Byte.lf + feeds) 0 moved := by
  have alsoEnded : (first ++ List.replicate feeds Byte.lf).getLast? = some Byte.lf := by
    rw [List.getLast?_append, ended]
    cases feeds with
    | zero => rfl
    | succ feeds => rw [List.replicate_succ', List.getLast?_concat, Option.some_or]
  have column : (Place.start.advance (first ++ List.replicate feeds Byte.lf)).column = 1 + 0 :=
    Place.column_advance_ended alsoEnded Place.start
  simpa [List.count_replicate_self] using displaced.movedBy column

namespace Block

namespace Scan

variable {scan next last : Scan} {turns : Nat}

theorem goOn_append (goes : scan.turn = .goOn next)
    (ended : scan.cursor.rest.getLast? = some Byte.lf) :
    (next.cursor.rest = [] ∨ next.cursor.rest.getLast? = some Byte.lf) ∧ ∀ tail,
      (scan.withRest (scan.cursor.rest ++ tail)).turn =
          .goOn (next.withRest (next.cursor.rest ++ tail)) ∧
        (scan.cursor.withRest (scan.cursor.rest ++ tail)).peek = scan.cursor.peek := by
  obtain ⟨used, shape, stops, anywhere⟩ := goOn_takes goes
  have feed : used.getLast? = some Byte.lf := by
    rcases stops with feed | empty
    · exact feed
    · rwa [shape, empty, List.append_nil] at ended
  refine ⟨?_, fun tail => ?_⟩
  · rcases eq_or_ne next.cursor.rest [] with empty | more
    · exact .inl empty
    · rw [shape, List.getLast?_append_of_ne_nil used more] at ended
      exact .inr ended
  · rw [shape, List.append_assoc]
    exact anywhere feed (next.cursor.rest ++ tail)

/-- What is read up to the end of a text that ends with a line is read alike when more follows. -/
theorem Runs.append (run : Runs turns scan last)
    (ended : scan.cursor.rest = [] ∨ scan.cursor.rest.getLast? = some Byte.lf) (tail : Bytes) :
    Runs turns (scan.withRest (scan.cursor.rest ++ tail))
      (last.withRest (last.cursor.rest ++ tail)) := by
  induction run with
  | refl scan => exact .refl _
  | @step turns scan next last goes run ih =>
      have feed : scan.cursor.rest.getLast? = some Byte.lf := by
        refine ended.resolve_left fun empty => ?_
        rw [turn_of_rest_nil empty] at goes
        contradiction
      obtain ⟨behind, anywhere⟩ := goOn_append goes feed
      exact .step (anywhere tail).1 (ih behind)

theorem Runs.exists_token (run : Runs turns scan last) (fresh : scan.active = none)
    (active : last.active ≠ none) : ∃ byte ∈ scan.cursor.rest, Byte.isGap byte = false := by
  refine Classical.byContradiction fun noToken => ?_
  have gap : Bytes.IsGap scan.cursor.rest := by simpa [Bytes.IsGap] using noToken
  clear noToken
  induction run with
  | refl scan => exact active fresh
  | @step turns scan next last goes run ih =>
      obtain ⟨region, used, passage, takes, passed⟩ := goOn_region goes
      have behind : Bytes.IsGap next.cursor.rest :=
        Bytes.isGap_of_suffix ⟨used, takes.rest.symm⟩ gap
      rcases passed with ⟨blank, same⟩ | ⟨doc, -, -⟩
      · exact ih (by rw [same]; exact fresh) active behind
      · obtain ⟨passes, isRegion⟩ := isRegion_of_doc doc
        have form := passage.form_of_region isRegion
        rw [form] at doc passes
        have shown := Cursor.line_shown passes (by rintro blank; simp [blank, Form.isDoc] at doc)
        rw [Text.isBlank_of_gap (Bytes.isGap_line gap)] at shown
        contradiction

theorem rest_of_endOfInput (ends : scan.turn = .endOfInput) : scan.cursor.rest = [] := by
  obtain ⟨region, after, read, form⟩ := endOfInput_cases ends
  have same := (Cursor.next_eq_ok_iff.mp read).form_of_region (by simp [form])
  exact (Cursor.peek_eq_endOfInput_iff _).mp (same.symm.trans form)

theorem result_opening (cursor : Cursor) (doc : cursor.peek.isDoc = true) (lines : List Bytes) :
    result ⟨none, lines, cursor⟩ = result ⟨some cursor.peek, lines, cursor⟩ := by
  have same : changesForm ⟨some cursor.peek, lines, cursor⟩ = false := by simp [changesForm]
  rw [result_eq, result_eq ⟨some cursor.peek, lines, cursor⟩, turn, turn, same]
  cases read : cursor.next with
  | error error => rfl
  | ok next =>
      have blank : next.1.form ≠ .blank := by
        intro blank
        rw [(Cursor.next_eq_ok_iff.mp read).form_of_region (by simp [blank])] at blank
        simp [blank, Form.isDoc] at doc
      cases form : next.1.form with
      | blank => exact absurd form blank
      | endOfInput | code | lineComment | blockComment | docAttribute =>
          simp [changesForm, form, passDoc]

variable {name first : Bytes}

theorem start_append (run : Runs turns (start name first) last) (active : last.active ≠ none)
    (ended : first.getLast? = some Byte.lf) :
    (start name first).cursor.rest.getLast? = some Byte.lf ∧ ∀ tail,
      start name (first ++ tail) =
        (start name first).withRest ((start name first).cursor.rest ++ tail) := by
  obtain ⟨byte, member, token⟩ := run.exists_token rfl active
  obtain ⟨passed, stands⟩ := Cursor.ofSource_stands name first
  have feed : (start name first).cursor.rest.getLast? = some Byte.lf := by
    calc
      (start name first).cursor.rest.getLast? = first.getLast? := by
        conv_rhs => rw [stands.whole]
        exact (List.getLast?_append_of_ne_nil passed (List.ne_nil_of_mem member)).symm
      _ = some Byte.lf := ended
  refine ⟨feed, fun tail => ?_⟩
  -- Only a first turn tells that the form at the start is settled whatever follows.
  cases run with
  | refl => exact absurd rfl active
  | step goes run =>
      obtain ⟨skipped, whole, anywhere⟩ := Cursor.ofSource_append (List.append_nil _).symm
        (List.mem_of_getLast? feed) ⟨byte, member, token⟩
        fun tail => ((goOn_append goes feed).2 tail).2
      have regroup : first ++ tail = skipped ++ ((start name first).cursor.rest ++ tail) := by
        rw [← List.append_assoc]
        exact congrArg (· ++ tail) (by rwa [List.append_nil] at whole)
      rw [start, regroup]
      exact congrArg (Scan.mk none []) (anywhere tail)

theorem result_start_append (run : Runs turns (start name first) last)
    (stops : last.turn = .endOfInput) (active : last.active ≠ none)
    (ended : first.getLast? = some Byte.lf) (tail : Bytes) :
    (start name (first ++ tail)).result =
      result ⟨last.active, last.lines, ⟨name, Place.start.advance first, tail⟩⟩ := by
  obtain ⟨feed, anywhere⟩ := start_append run active ended
  obtain ⟨passed, starts⟩ := Cursor.ofSource_stands name first
  obtain ⟨more, stands⟩ := run.stands starts
  have empty := rest_of_endOfInput stops
  have whole : first = passed ++ more := by simpa [empty] using stands.whole
  rw [anywhere tail, (run.append (.inr feed) tail).result]
  simp only [withRest, Cursor.withRest, stands.name, stands.place, empty, List.nil_append, whole]

theorem result_feeds (feeds : Nat) (form : Form) (lines : List Bytes) (name : Bytes)
    (place : Place) (rest : Bytes) :
    result ⟨some form, lines, ⟨name, place, List.replicate feeds Byte.lf ++ rest⟩⟩ =
      result ⟨some form, List.replicate feeds [] ++ lines,
        ⟨name, place.advance (List.replicate feeds Byte.lf), rest⟩⟩ := by
  let feed : BlankLine := ⟨[], by decide, Text.isBlank_nil⟩
  have text : (List.replicate feeds feed).flatMap BlankLine.text =
      List.replicate feeds Byte.lf := by
    rw [List.flatMap_replicate]
    simp [feed, BlankLine.text]
  have run := runs_blankLines (List.replicate feeds feed) (some form) lines name place rest
  rw [text, List.length_replicate] at run
  exact run.result

theorem result_otherForm {form : Form} (active : scan.active = some form)
    (doc : scan.cursor.peek.isDoc = true) (differs : form ≠ scan.cursor.peek) :
    scan.result = .ok scan.lines := by
  have changes : scan.changesForm = true := by
    rw [changesForm, active, Option.any_some, Bool.and_eq_true, bne_iff_ne]
    exact ⟨doc, differs.symm⟩
  rw [result_eq, turn_of_changesForm changes]

end Scan

section Lines

variable {line : Bytes} (shown : isBlank line = false) (feeds : Nat) (older : List Bytes)

include shown

theorem dropWhile_feeds :
    (List.replicate feeds [] ++ line :: older).dropWhile isBlank = line :: older := by
  rw [List.dropWhile_append_of_pos, List.dropWhile_cons_of_neg (by simp [shown])]
  intro text member
  rw [List.eq_of_mem_replicate member]
  exact Text.isBlank_nil

theorem reverse_dropWhile_feeds (lines : List Bytes) :
    ((lines ++ (List.replicate feeds [] ++ line :: older)).dropWhile isBlank).reverse =
      if (lines.dropWhile isBlank).reverse = [] then (line :: older).reverse
      else (line :: older).reverse ++
        (List.replicate feeds [] ++ (lines.dropWhile isBlank).reverse) := by
  rw [List.dropWhile_append]
  by_cases empty : lines.dropWhile isBlank = []
  · rw [if_pos (by simp [empty]), dropWhile_feeds shown, if_pos (by simp [empty])]
  · rw [if_neg (by simp [empty]), if_neg (by simp [empty])]
    simp only [List.reverse_append, List.reverse_replicate, List.append_assoc]

end Lines

theorem Scan.displaced_opening {name second : Bytes}
    (doc : (Cursor.peek ⟨name, Place.start, second⟩).isDoc = true) (lines : List Bytes)
    (base : Place) :
    ResultDisplaced base lines (start name second).result
      (result ⟨some (Cursor.peek ⟨name, Place.start, second⟩), lines, ⟨name, base, second⟩⟩) := by
  have displaced : Displaced base lines ⟨none, [], ⟨name, Place.start, second⟩⟩
      ⟨none, lines, ⟨name, base, second⟩⟩ := ⟨rfl, rfl, ⟨rfl, rfl, [], rfl, rfl⟩⟩
  rw [start, Cursor.ofSource_of_doc doc]
  exact result_opening ⟨name, base, second⟩ doc lines ▸ displaced.result

/-- A prologue that goes up to the end of its source stands in front of line feeds and of a source
that opens with documentation. In another form that documentation ends the prologue; in the same
form the prologue goes on with the second one, or fails as the second source does. -/
theorem extract_behind {name first second line : Bytes} {turns : Nat} {last : Scan} {form : Form}
    {older : List Bytes} (ended : first.getLast? = some Byte.lf)
    (run : Scan.Runs turns (Scan.start name first) last) (stops : last.turn = .endOfInput)
    (active : last.active = some form) (gathered : last.lines = line :: older)
    (shown : isBlank line = false)
    (doc : (Cursor.peek ⟨name, Place.start, second⟩).isDoc = true) :
    ∃ block, extract name first = .ok block ∧ ∀ feeds,
      let source := first ++ (List.replicate feeds Byte.lf ++ second)
      let other := Cursor.peek ⟨name, Place.start, second⟩
      (form ≠ other → extract name source = .ok block) ∧
      (form = other →
        (∀ behind, extract name second = .ok behind → extract name source =
          .ok (if behind = [] then block else block ++ (List.replicate feeds [] ++ behind))) ∧
        ∀ error, extract name second = .error error → ∃ moved,
          extract name source = .error moved ∧
            error.MovedBy (first.length + feeds) (first.count Byte.lf + feeds) 0 moved) := by
  have reached : extract name first = .ok (line :: older).reverse := by
    rw [Scan.extract_eq, run.result, Scan.result_eq, stops, gathered]
    exact congrArg (Except.ok ∘ List.reverse) (dropWhile_feeds shown 0 older)
  refine ⟨_, reached, fun feeds => ?_⟩
  intro source other
  let lines := List.replicate feeds [] ++ line :: older
  let base := Place.start.advance (first ++ List.replicate feeds Byte.lf)
  have goes : (Scan.start name source).result =
      Scan.result ⟨some form, lines, ⟨name, base, second⟩⟩ := by
    rw [Scan.result_start_append run stops (by simp [active]) ended, active, gathered,
      Scan.result_feeds, ← Place.advance_append]
  rw [Scan.extract_eq name source, goes]
  constructor
  · intro differs
    rw [Scan.result_otherForm rfl doc differs]
    exact congrArg (Except.ok ∘ List.reverse) (dropWhile_feeds shown feeds older)
  -- The second source is read in both: alone, and moved with the first prologue below its lines.
  · rintro rfl
    have results := Scan.displaced_opening doc lines base
    rw [Scan.extract_eq name second]
    generalize (Scan.start name second).result = alone at results ⊢
    generalize Scan.result _ = behind at results ⊢
    cases results with
    | ok added =>
        refine ⟨?_, fun _ failed => by contradiction⟩
        rintro _ ⟨⟩
        exact congrArg Except.ok (reverse_dropWhile_feeds shown feeds older added)
    | error faults =>
        refine ⟨fun _ done => by contradiction, ?_⟩
        rintro error ⟨⟩
        exact ⟨_, rfl, faults.movedBy_feeds ended⟩

theorem extract_behind_blockComment :
    let first : Bytes := Text.utf8 "/*! a */\n"
    let another : Bytes := Text.utf8 "//! b"
    let unterminated : Bytes := Text.utf8 "/*! b"
    let last : Scan := ⟨some .blockComment, [Text.utf8 "a"], ⟨[], ⟨9, 2, 1⟩, []⟩⟩
    let fault : Malformed := ⟨⟨[], 0, 1, 1⟩, .unterminatedBlock⟩
    Scan.Runs 1 (Scan.start [] first) last ∧ last.turn = .endOfInput ∧
      isBlank (Text.utf8 "a") = false ∧ extract [] unterminated = .error fault ∧
      extract [] (first ++ ([Byte.lf, Byte.lf] ++ another)) = .ok [Text.utf8 "a"] ∧
      ∃ moved, extract [] (first ++ ([Byte.lf, Byte.lf] ++ unterminated)) = .error moved ∧
        fault.MovedBy 11 3 0 moved := by
  intro first another unterminated last fault
  have ended : first.getLast? = some Byte.lf := by decide
  have run : Scan.Runs 1 (Scan.start [] first) last := .step (by decide +kernel) (.refl last)
  have stops : last.turn = .endOfInput := by decide +kernel
  have shown : isBlank (Text.utf8 "a") = false := by decide +kernel
  have failed : extract [] unterminated = .error fault := by decide +kernel
  have differs : Cursor.peek ⟨[], Place.start, another⟩ = .lineComment := by decide +kernel
  have same : Cursor.peek ⟨[], Place.start, unterminated⟩ = .blockComment := by decide +kernel
  have lineDoc : (Cursor.peek ⟨[], Place.start, another⟩).isDoc = true := by rw [differs]; rfl
  have blockDoc : (Cursor.peek ⟨[], Place.start, unterminated⟩).isDoc = true := by
    rw [same]; rfl
  have alone : extract [] first = .ok [Text.utf8 "a"] := by decide +kernel
  obtain ⟨block, reached, before⟩ := extract_behind ended run stops rfl rfl shown lineDoc
  obtain ⟨_, -, behind⟩ := extract_behind ended run stops rfl rfl shown blockDoc
  obtain rfl : [Text.utf8 "a"] = block := Except.ok.inj (alone.symm.trans reached)
  exact ⟨run, stops, shown, failed, (before 2).1 (by rw [differs]; decide),
    ((behind 2).2 same.symm).2 fault failed⟩

end Block

end DocPrologue
