import DocPrologue.Block

/-!
The scan for a prologue as a machine. One turn of its loop passes a region or ends the run; the
result of a scan is what the last turn of its run gives. Each turn that goes on leaves less to read,
so a run has at most one turn for each byte.
-/

namespace DocPrologue.Block

structure Scan where
  active : Option Form
  lines : List Bytes
  cursor : Cursor
deriving DecidableEq, Repr

namespace Scan

def start (name source : Bytes) : Scan := ⟨none, [], .ofSource name source⟩

inductive Turn where
  | goOn (next : Scan)
  | endOfInput
  | inFront
  | behind (region : Region) (after : Cursor)
  | fail (error : Malformed)
deriving DecidableEq, Repr

def changesForm (scan : Scan) : Bool :=
  scan.active.any fun form => scan.cursor.peek.isDoc && scan.cursor.peek != form

def passBlank (scan : Scan) (after : Cursor) : Scan :=
  ⟨scan.active, if scan.active.isSome then [] :: scan.lines else scan.lines, after⟩

def passDoc (scan : Scan) (region : Region) (after : Cursor) : Scan :=
  ⟨some region.form, region.lines.reverse ++ scan.lines, after⟩

def turn (scan : Scan) : Turn :=
  if scan.changesForm then .inFront
  else
    match scan.cursor.next with
    | .error error => .fail error
    | .ok (region, after) =>
      match region.form with
      | .endOfInput => .endOfInput
      | .code => .inFront
      | .blank => .goOn (scan.passBlank after)
      | .lineComment | .blockComment | .docAttribute =>
        if region.trailing then .behind region after else .goOn (scan.passDoc region after)

def result (scan : Scan) : Except Malformed (List Bytes) :=
  Block.scan scan.active scan.lines scan.cursor

theorem extract_eq (name source : Bytes) :
    extract name source =
      match (start name source).result with
      | .error error => .error error
      | .ok lines => .ok (lines.dropWhile Text.isBlank).reverse := rfl

theorem result_eq (scan : Scan) :
    scan.result =
      match scan.turn with
      | .goOn next => next.result
      | .endOfInput => .ok scan.lines
      | .inFront => .ok scan.lines
      | .behind region _ => .ok (region.lines.reverse ++ scan.lines)
      | .fail error => .error error := by
  rw [result, Block.scan, turn, changesForm]
  split
  · rfl
  · split
    · rename_i failed
      simp only [failed]
    · rename_i region after read
      simp only [read]
      cases form : region.form <;> simp [Form.isDoc, passBlank, passDoc, result, form] <;>
        split <;> rfl

theorem result_of_goOn {scan next : Scan} (goes : scan.turn = .goOn next) :
    scan.result = next.result := by
  rw [result_eq, goes]

/-- What a turn that goes on has passed: a blank line, or documentation in the active form. -/
theorem goOn_cases {scan next : Scan} (goes : scan.turn = .goOn next) :
    scan.changesForm = false ∧ ∃ region after, scan.cursor.next = .ok (region, after) ∧
      (region.form = .blank ∧ next = scan.passBlank after ∨
        region.form.isDoc = true ∧ region.trailing = false ∧ next = scan.passDoc region after) := by
  unfold turn at goes
  split at goes
  · contradiction
  · rename_i same
    refine ⟨by simpa using same, ?_⟩
    split at goes
    · contradiction
    · rename_i region after read
      refine ⟨region, after, read, ?_⟩
      cases form : region.form <;> simp only [form] at goes
      case endOfInput => contradiction
      case code => contradiction
      case blank => exact .inl ⟨rfl, (Turn.goOn.inj goes).symm⟩
      all_goals
        split at goes
        · contradiction
        · rename_i clear
          exact .inr ⟨rfl, by simpa using clear, (Turn.goOn.inj goes).symm⟩

theorem behind_cases {scan : Scan} {region : Region} {after : Cursor}
    (ends : scan.turn = .behind region after) :
    scan.changesForm = false ∧ scan.cursor.next = .ok (region, after) ∧
      region.form.isDoc = true ∧ region.trailing = true := by
  unfold turn at ends
  split at ends
  · contradiction
  · rename_i same
    refine ⟨by simpa using same, ?_⟩
    split at ends
    · contradiction
    · rename_i found rest read
      cases form : found.form <;> simp only [form] at ends
      case endOfInput => contradiction
      case code => contradiction
      case blank => contradiction
      all_goals
        split at ends
        · rename_i trailing
          obtain ⟨rfl, rfl⟩ := Turn.behind.inj ends
          exact ⟨read, by rw [form]; rfl, trailing⟩
        · contradiction

theorem inFront_cases {scan : Scan} (ends : scan.turn = .inFront) :
    scan.changesForm = true ∨ scan.changesForm = false ∧
      ∃ region after, scan.cursor.next = .ok (region, after) ∧ region.form = .code := by
  unfold turn at ends
  split at ends
  · rename_i changes
    exact .inl changes
  · rename_i same
    refine .inr ⟨by simpa using same, ?_⟩
    split at ends
    · contradiction
    · rename_i region after read
      refine ⟨region, after, read, ?_⟩
      cases form : region.form <;> simp only [form] at ends
      case code => rfl
      case endOfInput => contradiction
      case blank => contradiction
      all_goals split at ends <;> contradiction

theorem endOfInput_cases {scan : Scan} (ends : scan.turn = .endOfInput) :
    ∃ region after, scan.cursor.next = .ok (region, after) ∧ region.form = .endOfInput := by
  unfold turn at ends
  split at ends
  · contradiction
  · split at ends
    · contradiction
    · rename_i region after read
      refine ⟨region, after, read, ?_⟩
      cases form : region.form <;> simp only [form] at ends
      case endOfInput => rfl
      case code => contradiction
      case blank => contradiction
      all_goals split at ends <;> contradiction

theorem fail_cases {scan : Scan} {error : Malformed} (ends : scan.turn = .fail error) :
    scan.cursor.next = .error error := by
  unfold turn at ends
  split at ends
  · contradiction
  · split at ends
    · rename_i failed
      rw [failed, Turn.fail.inj ends]
    · rename_i region after read
      cases form : region.form <;> simp only [form] at ends
      case endOfInput => contradiction
      case code => contradiction
      case blank => contradiction
      all_goals split at ends <;> contradiction

theorem turn_of_changesForm {scan : Scan} (changes : scan.changesForm = true) :
    scan.turn = .inFront := by
  rw [turn, if_pos changes]

theorem turn_of_doc {scan : Scan} {region : Region} {after : Cursor}
    (same : scan.changesForm = false) (read : scan.cursor.next = .ok (region, after))
    (doc : region.form.isDoc = true) :
    scan.turn =
      if region.trailing then .behind region after else .goOn (scan.passDoc region after) := by
  rw [turn, if_neg (by simp [same]), read]
  cases form : region.form <;> simp_all [Form.isDoc]

theorem turn_of_blank {scan : Scan} {region : Region} {after : Cursor}
    (same : scan.changesForm = false) (read : scan.cursor.next = .ok (region, after))
    (blank : region.form = .blank) : scan.turn = .goOn (scan.passBlank after) := by
  rw [turn, if_neg (by simp [same]), read]
  simp [blank]

theorem turn_of_code {scan : Scan} {region : Region} {after : Cursor}
    (same : scan.changesForm = false) (read : scan.cursor.next = .ok (region, after))
    (code : region.form = .code) : scan.turn = .inFront := by
  rw [turn, if_neg (by simp [same]), read]
  simp [code]

theorem isRegion_of_doc {region : Region} (doc : region.form.isDoc = true) :
    region.form ≠ .endOfInput ∧ region.form ≠ .code := by
  constructor
  · intro empty
    simp [empty, Form.isDoc] at doc
  · intro code
    simp [code, Form.isDoc] at doc

theorem goOn_length {scan next : Scan} (goes : scan.turn = .goOn next) :
    next.cursor.rest.length < scan.cursor.rest.length := by
  obtain ⟨-, region, after, read, ⟨blank, rfl⟩ | ⟨doc, -, rfl⟩⟩ := goOn_cases goes
  · exact Cursor.next_length read (by simp [blank]) (by simp [blank])
  · obtain ⟨passes, isRegion⟩ := isRegion_of_doc doc
    exact Cursor.next_length read passes isRegion

inductive Runs : Nat → Scan → Scan → Prop
  | refl (scan : Scan) : Runs 0 scan scan
  | step {turns : Nat} {scan next last : Scan} : scan.turn = .goOn next → Runs turns next last →
      Runs (turns + 1) scan last

theorem Runs.result {turns : Nat} {scan last : Scan} (run : Runs turns scan last) :
    scan.result = last.result := by
  induction run with
  | refl scan => rfl
  | step goes _ ih => rw [result_of_goOn goes, ih]

theorem Runs.length {turns : Nat} {scan last : Scan} (run : Runs turns scan last) :
    turns + last.cursor.rest.length ≤ scan.cursor.rest.length := by
  induction run with
  | refl scan => omega
  | step goes _ ih =>
      have shorter := goOn_length goes
      omega

theorem exists_last (scan : Scan) :
    ∃ turns last, Runs turns scan last ∧ ∀ next, last.turn ≠ .goOn next := by
  generalize size : scan.cursor.rest.length = length
  induction length using Nat.strongRecOn generalizing scan with
  | ind length ih =>
      by_cases goes : ∃ next, scan.turn = .goOn next
      · obtain ⟨next, goes⟩ := goes
        have shorter := goOn_length goes
        obtain ⟨turns, last, run, ended⟩ := ih _ (size ▸ shorter) next rfl
        exact ⟨turns + 1, last, .step goes run, ended⟩
      · exact ⟨0, scan, .refl scan, fun next stays => goes ⟨next, stays⟩⟩

end Scan

end DocPrologue.Block
