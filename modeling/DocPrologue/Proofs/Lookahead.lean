import DocPrologue.Proofs.Regions
import DocPrologue.Proofs.Scan
import Mathlib.Data.List.Basic

/-!
How far a scan reads. A region is told by the text up to the end of its last line, so a scan that
stops short of the end of the input gives the same prologue whatever follows the line it stops on.
Only a line that opens an attribute is told by more.
-/

namespace DocPrologue

namespace Bytes

theorem exists_token {front tail : Bytes} (feed : Byte.lf ∈ front)
    (shown : Text.isBlank (line (front ++ tail)) = false) :
    ∃ byte ∈ front, Byte.isGap byte = false := by
  rcases Classical.em (IsGap front) with gap | noGap
  · obtain ⟨more, shape⟩ := exists_eq_line_append front
    have blank : IsGap (line front) := by
      intro byte member
      exact gap byte (shape ▸ List.mem_append_left more member)
    rw [line_append feed, Text.isBlank_of_gap blank] at shown
    contradiction
  · simpa [IsGap] using noGap

end Bytes

theorem Attribute.body?_isSome_append {more : Bytes}
    (token : ∃ byte ∈ more, Byte.isGap byte = false) (tail : Bytes) :
    (body? (mark ++ (more ++ tail))).isSome = (body? (mark ++ more)).isSome := by
  obtain ⟨gap, isGap, shape⟩ := exists_gap more
  have noGap : Bytes.NoGap (skipGap more) := Bytes.noGap_dropWhile more
  cases skipped : skipGap more with
  | nil =>
      obtain ⟨byte, member, visible⟩ := token
      rw [shape, skipped, List.append_nil] at member
      rw [isGap byte member] at visible
      contradiction
  | cons byte rest =>
      rw [skipped] at shape noGap
      have first (rest : Bytes) : skipGap (gap ++ byte :: rest) = byte :: rest :=
        Bytes.dropWhile_gap isGap (Bytes.noGap_cons (noGap byte rfl) rest)
      simp only [body?, Bytes.after?_append, Option.bind_some, afterToken?]
      rw [shape, List.append_assoc, List.cons_append, first, first]
      simp only
      split <;> rfl

theorem Attribute.body?_wholeLine_append {text front : Bytes}
    (ended : Byte.lf ∈ Bytes.wholeLine text) (marked : Bytes.startsWith mark text = true)
    (token : ∃ byte ∈ front, Byte.isGap byte = false) (tail other : Bytes) :
    (body? (Bytes.wholeLine text ++ (front ++ tail))).isSome =
      (body? (Bytes.wholeLine text ++ (front ++ other))).isSome := by
  have lineMarked : Bytes.startsWith mark (Bytes.wholeLine text) = true := by
    rw [← Bytes.startsWith_append ended (Bytes.afterLine text) (by decide),
      Bytes.wholeLine_append_afterLine, marked]
  obtain ⟨more, opens⟩ := Bytes.startsWith_iff.mp lineMarked
  have inside : ∃ byte ∈ more ++ front, Byte.isGap byte = false := by
    obtain ⟨byte, member, visible⟩ := token
    exact ⟨byte, List.mem_append_right more member, visible⟩
  have regroup (rest : Bytes) : Bytes.wholeLine text ++ (front ++ rest) =
      mark ++ ((more ++ front) ++ rest) := by
    rw [opens, List.append_assoc, List.append_assoc]
  rw [regroup, regroup, body?_isSome_append inside, body?_isSome_append inside]

namespace Cursor

variable {cursor after : Cursor} {region : Region} {used : Bytes}

theorem line_shown (form : cursor.peek ≠ .endOfInput) (shown : cursor.peek ≠ .blank) :
    Text.isBlank (Bytes.line cursor.rest) = false := by
  rw [Ne, peek_eq_endOfInput_iff] at form
  rw [Ne, peek_eq_blank_iff] at shown
  simpa [form] using shown

theorem next_of_code (form : cursor.peek = .code) :
    cursor.next = .ok (⟨.code, cursor.position, [], false⟩, cursor) := by
  rw [next, form]

namespace Takes

variable (takes : Takes cursor region after used) (ended : used.getLast? = some Byte.lf)

include takes ended

theorem next (tail : Bytes) :
    (cursor.withRest (used ++ tail)).next = .ok (region, after.withRest tail) :=
  next_eq_ok_iff.mpr (takes.anywhere ended tail)

theorem peek (passage : Passage cursor region after) (isRegion : region.form ≠ .code)
    (tail : Bytes) : (cursor.withRest (used ++ tail)).peek = cursor.peek := by
  rw [← passage.form_of_region isRegion, (takes.anywhere ended tail).form_of_region isRegion]

end Takes

end Cursor

namespace Block.Scan

def withRest (scan : Scan) (rest : Bytes) : Scan :=
  ⟨scan.active, scan.lines, scan.cursor.withRest rest⟩

/-- Where a scan stops short of the end of the input: what follows the line it stops on, which is
the line at the cursor or the last line of a region that code follows. -/
def unread? (scan : Scan) : Option Bytes :=
  match scan.turn with
  | .inFront => some (Bytes.afterLine scan.cursor.rest)
  | .behind _ after => some after.rest
  | .goOn _ | .endOfInput | .fail _ => none

structure Settled (scan : Scan) (front : Bytes) : Prop where
  feed : Byte.lf ∈ front
  token : ∃ byte ∈ front, Byte.isGap byte = false
  peek : scan.active = none → ∀ tail,
    (scan.cursor.withRest (front ++ tail)).peek = scan.cursor.peek
  result : ∀ tail, (scan.withRest (front ++ tail)).result = scan.result

variable {scan next last : Scan}

theorem changesForm_withRest {rest : Bytes}
    (same : (scan.cursor.withRest rest).peek = scan.cursor.peek) :
    (scan.withRest rest).changesForm = scan.changesForm := by
  simp only [changesForm, withRest, same]

theorem settled_of_behind {region : Region} {after : Cursor}
    (ends : scan.turn = .behind region after) :
    ∃ front, front ≠ [] ∧ scan.cursor.rest = front ++ after.rest ∧
      (front.getLast? = some Byte.lf → Settled scan front) := by
  obtain ⟨same, read, doc, trailing⟩ := behind_cases ends
  have passage := Cursor.next_eq_ok_iff.mp read
  obtain ⟨passes, isRegion⟩ := isRegion_of_doc doc
  obtain ⟨front, takes⟩ := passage.takes passes isRegion
  refine ⟨front, takes.nonempty, takes.rest, ?_⟩
  intro ended
  have feed := List.mem_of_getLast? ended
  have peek := takes.peek ended passage isRegion
  refine ⟨feed, ?_, fun _ => peek, ?_⟩
  · have form := passage.form_of_region isRegion
    rw [form] at doc passes
    refine Bytes.exists_token feed (takes.rest ▸ Cursor.line_shown passes ?_)
    intro blank
    simp [blank, Form.isDoc] at doc
  · intro tail
    have turned : (scan.withRest (front ++ tail)).turn = .behind region (after.withRest tail) := by
      rw [turn_of_doc ((changesForm_withRest (peek tail)).trans same) (takes.next ended tail) doc,
        if_pos trailing]
    rw [result_eq, turned, result_eq scan, ends]
    rfl

theorem turn_of_mark (marked : Bytes.startsWith Attribute.mark scan.cursor.rest = true)
    (active : scan.active ≠ none) (other : scan.active ≠ some .docAttribute) :
    scan.turn = .inFront := by
  have form := Cursor.peek_of_mark marked
  obtain ⟨activeForm, isActive⟩ := Option.ne_none_iff_exists'.mp active
  rw [isActive] at other
  split at form
  · apply turn_of_changesForm
    have differs : Form.docAttribute ≠ activeForm := fun same => other (by rw [same])
    simp [changesForm, isActive, form, Form.isDoc, differs]
  · apply turn_of_code _ (Cursor.next_of_code form) rfl
    simp [changesForm, isActive, form, Form.isDoc]

theorem peek_of_inFront (ends : scan.turn = .inFront) :
    scan.cursor.peek.isDoc = true ∨ scan.cursor.peek = .code := by
  rcases inFront_cases ends with changes | ⟨-, region, after, read, code⟩
  · obtain ⟨form, -, differs⟩ := (Option.any_eq_true _ _).mp changes
    simp only [Bool.and_eq_true] at differs
    exact .inl differs.1
  · rcases (Cursor.next_eq_ok_iff.mp read).form with same | ⟨opens, -⟩
    · exact .inr (same.symm.trans code)
    · exact .inl (by rw [opens]; rfl)

theorem peek_withRest {cursor : Cursor} (feed : Byte.lf ∈ Bytes.wholeLine cursor.rest)
    (unmarked : ¬Bytes.startsWith Attribute.mark cursor.rest = true) (tail : Bytes) :
    (cursor.withRest (Bytes.wholeLine cursor.rest ++ tail)).peek = cursor.peek := by
  have closed {rest : Bytes} (unmarked : ¬Bytes.startsWith Attribute.mark rest = true) :
      (Attribute.body? rest).isSome = false :=
    Bool.eq_false_iff.mpr fun opened => unmarked (Attribute.startsWith_of_body? opened)
  have more : cursor.rest ≠ [] := by
    intro empty
    simp [empty, Bytes.wholeLine] at feed
  have alsoUnmarked :
      ¬Bytes.startsWith Attribute.mark (Bytes.wholeLine cursor.rest ++ tail) = true := by
    rwa [Bytes.startsWith_wholeLine_append feed _ _ (by decide)]
  rw [Cursor.peek_eq, Cursor.peek_eq, closed unmarked]
  simp only [Cursor.withRest, closed alsoUnmarked, Bytes.line_wholeLine_append feed,
    Bytes.startsWith_wholeLine_append feed tail Comment.lineMark (by decide),
    Bytes.startsWith_wholeLine_append feed tail Comment.blockMark (by decide), if_neg more,
    if_neg (List.append_ne_nil_of_left_ne_nil (List.ne_nil_of_mem feed) tail)]

theorem turn_of_inFront (ends : scan.turn = .inFront)
    (feed : Byte.lf ∈ Bytes.wholeLine scan.cursor.rest)
    (clear : Bytes.startsWith Attribute.mark scan.cursor.rest = true →
      scan.active ≠ none ∧ scan.active ≠ some .docAttribute) (tail : Bytes) :
    (scan.withRest (Bytes.wholeLine scan.cursor.rest ++ tail)).turn = .inFront := by
  by_cases marked : Bytes.startsWith Attribute.mark scan.cursor.rest = true
  -- With other text behind it the mark may open an attribute or none; both end the scan.
  · obtain ⟨active, other⟩ := clear marked
    refine turn_of_mark ?_ active other
    rwa [withRest, Cursor.withRest, Bytes.startsWith_wholeLine_append feed _ _ (by decide)]
  · have peek := peek_withRest feed marked tail
    have changes := changesForm_withRest peek
    rcases inFront_cases ends with changed | ⟨same, region, after, read, code⟩
    · exact turn_of_changesForm (changes.trans changed)
    · have isCode : scan.cursor.peek = .code := by
        rcases (Cursor.next_eq_ok_iff.mp read).form with equal | ⟨opens, -⟩
        · exact equal.symm.trans code
        · have opened := (Cursor.peek_eq_docAttribute_iff _).mp opens
          exact absurd (Attribute.startsWith_of_body? opened) marked
      exact turn_of_code (changes.trans same) (Cursor.next_of_code (peek.trans isCode)) rfl

theorem settled_of_inFront (ends : scan.turn = .inFront)
    (ended : (Bytes.wholeLine scan.cursor.rest).getLast? = some Byte.lf)
    (clear : Bytes.startsWith Attribute.mark scan.cursor.rest = true →
      scan.active ≠ none ∧ scan.active ≠ some .docAttribute) :
    Settled scan (Bytes.wholeLine scan.cursor.rest) := by
  have feed := List.mem_of_getLast? ended
  have form := peek_of_inFront ends
  have shown : Text.isBlank (Bytes.line scan.cursor.rest) = false := by
    apply Cursor.line_shown
    · intro empty
      simp [empty, Form.isDoc] at form
    · intro blank
      simp [blank, Form.isDoc] at form
  refine ⟨feed, ?_, ?_, ?_⟩
  · refine Bytes.exists_token feed (?_ : Text.isBlank (Bytes.line (_ ++ [])) = false)
    rwa [Bytes.line_wholeLine_append feed]
  · intro inactive tail
    exact peek_withRest feed (fun marked => (clear marked).1 inactive) tail
  · intro tail
    rw [result_eq, turn_of_inFront ends feed clear, result_eq scan, ends]
    rfl

theorem goOn_region (goes : scan.turn = .goOn next) :
    ∃ region used, Cursor.Passage scan.cursor region next.cursor ∧
      Cursor.Takes scan.cursor region next.cursor used ∧
      (region.form = .blank ∧ next = scan.passBlank next.cursor ∨
        region.form.isDoc = true ∧ region.trailing = false ∧
          next = scan.passDoc region next.cursor) := by
  obtain ⟨-, region, after, read, passed⟩ := goOn_cases goes
  have passage := Cursor.next_eq_ok_iff.mp read
  rcases passed with ⟨blank, rfl⟩ | ⟨doc, clear, rfl⟩
  · obtain ⟨used, takes⟩ := passage.takes (by simp [blank]) (by simp [blank])
    exact ⟨region, used, passage, takes, .inl ⟨blank, rfl⟩⟩
  · obtain ⟨used, takes⟩ := passage.takes (isRegion_of_doc doc).1 (isRegion_of_doc doc).2
    exact ⟨region, used, passage, takes, .inr ⟨doc, clear, rfl⟩⟩

theorem Runs.stands {name source passed : Bytes} {turns : Nat} (run : Runs turns scan last)
    (stands : scan.cursor.Stands name source passed) :
    ∃ more, last.cursor.Stands name source (passed ++ more) := by
  induction run generalizing passed with
  | refl scan => exact ⟨[], by rwa [List.append_nil]⟩
  | step goes run ih =>
      obtain ⟨_, used, -, takes, -⟩ := goOn_region goes
      obtain ⟨more, reached⟩ := ih (stands.takes takes)
      exact ⟨used ++ more, by rwa [← List.append_assoc]⟩

/-- A turn that goes on takes some text, and takes it alike in front of any other text. -/
theorem goOn_takes (goes : scan.turn = .goOn next) :
    ∃ used, scan.cursor.rest = used ++ next.cursor.rest ∧
      (used.getLast? = some Byte.lf ∨ next.cursor.rest = []) ∧
      (used.getLast? = some Byte.lf → ∀ tail,
        (scan.withRest (used ++ tail)).turn = .goOn (next.withRest tail) ∧
          (scan.cursor.withRest (used ++ tail)).peek = scan.cursor.peek) := by
  obtain ⟨region, used, passage, takes, passed⟩ := goOn_region goes
  have isRegion : region.form ≠ .code := by
    rcases passed with ⟨blank, -⟩ | ⟨doc, -, -⟩
    · simp [blank]
    · exact (isRegion_of_doc doc).2
  refine ⟨used, takes.rest, takes.ended, ?_⟩
  intro ended tail
  have peek := takes.peek ended passage isRegion tail
  have reads := takes.next ended tail
  have stays := (changesForm_withRest peek).trans (goOn_cases goes).1
  refine ⟨?_, peek⟩
  rcases passed with ⟨blank, same⟩ | ⟨doc, clear, same⟩
  · rw [same]
    exact turn_of_blank stays reads blank
  · rw [same, turn_of_doc stays reads doc, if_neg (by simp [clear])]
    rfl

theorem settled_of_goOn (goes : scan.turn = .goOn next) :
    ∃ used, scan.cursor.rest = used ++ next.cursor.rest ∧
      ∀ front after, next.cursor.rest = front ++ after → Settled next front →
        Settled scan (used ++ front) := by
  obtain ⟨used, shape, ended, anywhere⟩ := goOn_takes goes
  refine ⟨used, shape, ?_⟩
  intro front after nextShape settled
  have more : next.cursor.rest ≠ [] := by
    rw [nextShape]
    exact List.append_ne_nil_of_left_ne_nil (List.ne_nil_of_mem settled.feed) after
  have feed : used.getLast? = some Byte.lf := ended.resolve_right more
  refine ⟨List.mem_append_right used settled.feed, ?_, ?_, ?_⟩
  · obtain ⟨byte, member, token⟩ := settled.token
    exact ⟨byte, List.mem_append_right used member, token⟩
  · intro _ tail
    rw [List.append_assoc]
    exact (anywhere feed (front ++ tail)).2
  · intro tail
    have turned := (anywhere feed (front ++ tail)).1
    rw [List.append_assoc, result_of_goOn turned, settled.result tail, result_of_goOn goes]

theorem Runs.settled {turns : Nat} (run : Runs turns scan last) :
    ∃ used, scan.cursor.rest = used ++ last.cursor.rest ∧
      ∀ front after, last.cursor.rest = front ++ after → Settled last front →
        Settled scan (used ++ front) := by
  induction run with
  | refl scan => exact ⟨[], rfl, fun _ _ _ settled => settled⟩
  | @step turns scan next last goes run ih =>
      obtain ⟨used, reached, settles⟩ := ih
      obtain ⟨first, passed, goes⟩ := settled_of_goOn goes
      refine ⟨first ++ used, by rw [passed, reached, List.append_assoc], ?_⟩
      intro front after shape settled
      rw [List.append_assoc]
      refine goes (used ++ front) after ?_ (settles front after shape settled)
      rw [reached, shape, List.append_assoc]

/-- Where a scan stops, the text up to the end of the line it stops on settles the rest. -/
theorem settled_of_unread {after : Bytes} (stops : scan.unread? = some after)
    (clear : scan.turn = .inFront → Bytes.startsWith Attribute.mark scan.cursor.rest = true →
      scan.active ≠ none ∧ scan.active ≠ some .docAttribute) :
    (∃ lines, scan.result = .ok lines) ∧ ∃ front, front ≠ [] ∧ scan.cursor.rest = front ++ after ∧
      (front.getLast? = some Byte.lf → Settled scan front) := by
  rw [result_eq]
  unfold unread? at stops
  cases ends : scan.turn with
  | inFront =>
      rw [ends] at stops
      have rest : Bytes.afterLine scan.cursor.rest = after := Option.some.inj stops
      have whole := Bytes.wholeLine_append_afterLine scan.cursor.rest
      have more : scan.cursor.rest ≠ [] := by
        intro empty
        have form := peek_of_inFront ends
        simp [(Cursor.peek_eq_endOfInput_iff _).mpr empty, Form.isDoc] at form
      exact ⟨⟨_, rfl⟩, _, Bytes.wholeLine_ne_nil more, rest ▸ whole.symm,
        fun ended => settled_of_inFront ends ended (clear ends)⟩
  | behind region cursor =>
      rw [ends] at stops
      obtain ⟨front, nonempty, shape, settles⟩ := settled_of_behind ends
      exact ⟨⟨_, rfl⟩, front, nonempty, Option.some.inj stops ▸ shape, settles⟩
  | goOn _ | endOfInput | fail _ =>
      rw [ends] at stops
      contradiction

end Block.Scan

namespace Cursor

theorem skipInterpreter_of_names {cursor : Cursor} {front after : Bytes}
    (names : Bytes.startsWith Attribute.mark cursor.rest = true ∧
      Attribute.body? cursor.rest = none)
    (shape : Bytes.afterLine cursor.rest = front ++ after) (feed : Byte.lf ∈ front)
    (token : ∃ byte ∈ front, Byte.isGap byte = false) (tail : Bytes) :
    (cursor.withRest (Bytes.wholeLine cursor.rest ++ (front ++ tail))).skipInterpreter =
      cursor.skipLine.withRest (front ++ tail) := by
  have ended : Byte.lf ∈ Bytes.wholeLine cursor.rest := by
    rcases Bytes.wholeLine_ended cursor.rest with ended | empty
    · exact List.mem_of_getLast? ended
    · rw [shape] at empty
      exact absurd (List.append_eq_nil_iff.mp empty).1 (List.ne_nil_of_mem feed)
  have marked := Bytes.startsWith_wholeLine_append ended (front ++ tail) Attribute.mark (by decide)
  have closed : Attribute.body? (Bytes.wholeLine cursor.rest ++ (front ++ tail)) = none := by
    have same := Attribute.body?_wholeLine_append ended names.1 token tail after
    rw [← shape, Bytes.wholeLine_append_afterLine, names.2] at same
    exact Option.isNone_iff_eq_none.mp (by simpa using same)
  rw [← skipLine_withRest ended]
  exact if_pos ⟨marked.trans names.1, closed⟩

theorem skipInterpreter_of_not_names {cursor : Cursor} {front after : Bytes}
    (names : ¬(Bytes.startsWith Attribute.mark cursor.rest = true ∧
      Attribute.body? cursor.rest = none))
    (shape : cursor.rest = front ++ after) (feed : Byte.lf ∈ front) {tail : Bytes}
    (peek : (cursor.withRest (front ++ tail)).peek = cursor.peek) :
    (cursor.withRest (front ++ tail)).skipInterpreter = cursor.withRest (front ++ tail) := by
  refine if_neg ?_
  rintro ⟨marked, closed⟩
  have starts : Bytes.startsWith Attribute.mark cursor.rest = true := by
    rw [shape, Bytes.startsWith_append feed after (by decide),
      ← Bytes.startsWith_append feed tail (by decide)]
    exact marked
  have opened : (Attribute.body? cursor.rest).isSome = true :=
    Option.isSome_iff_ne_none.mpr fun none => names ⟨starts, none⟩
  have form := peek.trans ((peek_eq_docAttribute_iff cursor).mpr opened)
  have alsoOpened := (peek_eq_docAttribute_iff _).mp form
  rw [closed] at alsoOpened
  contradiction

theorem skipInterpreter_append {cursor : Cursor} {front after : Bytes}
    (shape : cursor.skipInterpreter.rest = front ++ after) (feed : Byte.lf ∈ front)
    (token : ∃ byte ∈ front, Byte.isGap byte = false)
    (peek : ∀ tail, (cursor.skipInterpreter.withRest (front ++ tail)).peek =
      cursor.skipInterpreter.peek) :
    ∃ skipped, cursor.rest = skipped ++ (front ++ after) ∧ ∀ tail,
      (cursor.withRest (skipped ++ (front ++ tail))).skipInterpreter =
        cursor.skipInterpreter.withRest (front ++ tail) := by
  by_cases names : Bytes.startsWith Attribute.mark cursor.rest = true ∧
    Attribute.body? cursor.rest = none
  · have skips : cursor.skipInterpreter = cursor.skipLine := if_pos names
    rw [skips] at shape ⊢
    refine ⟨Bytes.wholeLine cursor.rest, ?_, skipInterpreter_of_names names shape feed token⟩
    rw [← shape]
    exact (Bytes.wholeLine_append_afterLine cursor.rest).symm
  · have stays : cursor.skipInterpreter = cursor := if_neg names
    rw [stays] at shape peek ⊢
    exact ⟨[], shape, fun tail => skipInterpreter_of_not_names names shape feed (peek tail)⟩

theorem ofSource_append {name source front after : Bytes}
    (shape : (ofSource name source).rest = front ++ after) (feed : Byte.lf ∈ front)
    (token : ∃ byte ∈ front, Byte.isGap byte = false)
    (peek : ∀ tail, ((ofSource name source).withRest (front ++ tail)).peek =
      (ofSource name source).peek) :
    ∃ skipped, source = skipped ++ (front ++ after) ∧ ∀ tail,
      ofSource name (skipped ++ (front ++ tail)) =
        (ofSource name source).withRest (front ++ tail) := by
  cases marked : Bytes.after? byteOrderMark source with
  | some rest =>
      have opens : ofSource name source =
          skipInterpreter ⟨name, Place.start.advance byteOrderMark, rest⟩ := by
        rw [ofSource, marked]
      rw [opens] at shape peek ⊢
      obtain ⟨skipped, whole, anywhere⟩ := skipInterpreter_append shape feed token peek
      refine ⟨byteOrderMark ++ skipped, ?_, ?_⟩
      · rw [Bytes.after?_eq_some_iff.mp marked, show rest = _ from whole, List.append_assoc]
      · intro tail
        rw [← anywhere tail, ofSource, List.append_assoc, Bytes.after?_append]
        rfl
  | none =>
      have opens : ofSource name source = skipInterpreter ⟨name, Place.start, source⟩ := by
        rw [ofSource, marked]
      rw [opens] at shape peek ⊢
      obtain ⟨skipped, whole, anywhere⟩ := skipInterpreter_append shape feed token peek
      refine ⟨skipped, whole, ?_⟩
      intro tail
      have inside : Byte.lf ∈ skipped ++ front := List.mem_append_right skipped feed
      have unmarked : Bytes.startsWith byteOrderMark (skipped ++ (front ++ tail)) = false := by
        rw [← List.append_assoc, Bytes.startsWith_append inside tail (by decide),
          ← Bytes.startsWith_append inside after (by decide), List.append_assoc,
          ← show source = _ from whole, Bytes.startsWith, marked]
        rfl
      have absent : Bytes.after? byteOrderMark (skipped ++ (front ++ tail)) = none :=
        Option.isNone_iff_eq_none.mp (by simpa [Bytes.startsWith] using unmarked)
      rw [← anywhere tail, ofSource, absent]
      rfl

end Cursor

namespace Block

open Scan (Runs)

theorem extract_settled {name source front after : Bytes}
    (shape : (Scan.start name source).cursor.rest = front ++ after)
    (settled : (Scan.start name source).Settled front) :
    ∃ skipped, source = skipped ++ (front ++ after) ∧
      ∀ other, extract name (skipped ++ (front ++ other)) = extract name source := by
  obtain ⟨skipped, whole, anywhere⟩ :=
    Cursor.ofSource_append shape settled.feed settled.token (settled.peek rfl)
  refine ⟨skipped, whole, ?_⟩
  intro other
  have starts : Scan.start name (skipped ++ (front ++ other)) =
      (Scan.start name source).withRest (front ++ other) :=
    congrArg (Scan.mk none []) (anywhere other)
  rw [Scan.extract_eq, Scan.extract_eq, starts, settled.result other]

/-- A scan that stops short of the end of the input has read no further than the line it stops on:
any other text may follow that line. A line that opens an attribute where one may be read is the
only exception. -/
theorem extract_unread {name source front after : Bytes} {turns : Nat} {last : Scan}
    (run : Runs turns (Scan.start name source) last) (stops : last.unread? = some after)
    (shape : source = front ++ after) (ended : front.getLast? = some Byte.lf)
    (clear : last.turn = .inFront → Bytes.startsWith Attribute.mark last.cursor.rest = true →
      last.active ≠ none ∧ last.active ≠ some .docAttribute) :
    ∃ block, extract name source = .ok block ∧
      ∀ other, extract name (front ++ other) = .ok block := by
  obtain ⟨⟨lines, result⟩, line, nonempty, stop, settles⟩ := Scan.settled_of_unread stops clear
  obtain ⟨used, taken, lifts⟩ := run.settled
  obtain ⟨passed, stands⟩ := Cursor.ofSource_stands name source
  have reached : (Scan.start name source).cursor.rest = (used ++ line) ++ after := by
    rw [taken, stop, List.append_assoc]
  have lineEnded : line.getLast? = some Byte.lf := by
    have whole : front ++ after = (passed ++ (used ++ line)) ++ after := by
      rw [← shape, List.append_assoc, ← reached]
      exact stands.whole
    rwa [List.append_cancel_right whole, ← List.append_assoc,
      List.getLast?_append_of_ne_nil _ nonempty] at ended
  obtain ⟨skipped, same, anywhere⟩ :=
    extract_settled reached (lifts line after stop (settles lineEnded))
  have prologue : extract name source = .ok (lines.dropWhile Text.isBlank).reverse := by
    rw [Scan.extract_eq, run.result, result]
  refine ⟨_, prologue, ?_⟩
  intro other
  rw [shape, ← List.append_assoc] at same
  rw [List.append_cancel_right same, List.append_assoc, anywhere, prologue]

theorem extract_unread_attribute :
    let front : Bytes := Text.utf8 "//! a\n#![doc\n"
    let after : Bytes := Text.utf8 "/*!"
    let last : Scan :=
      ⟨some .lineComment, [Text.utf8 "a"], ⟨[], ⟨6, 2, 1⟩, Text.utf8 "#![doc\n/*!"⟩⟩
    Runs 1 (Scan.start [] (front ++ after)) last ∧ last.unread? = some after ∧
      last.turn = .inFront ∧ Bytes.startsWith Attribute.mark last.cursor.rest = true ∧
      ∃ block, extract [] (front ++ after) = .ok block ∧
        ∀ other, extract [] (front ++ other) = .ok block := by
  intro front after last
  have run : Runs 1 (Scan.start [] (front ++ after)) last := .step (by decide +kernel) (.refl last)
  have stops : last.unread? = some after := by decide +kernel
  exact ⟨run, stops, by decide +kernel, by decide, extract_unread run stops rfl (by decide)
    fun _ _ => ⟨by decide, by decide⟩⟩

end Block

end DocPrologue
