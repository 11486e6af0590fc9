import DocPrologue.Proofs.Regions
import DocPrologue.Proofs.Returns
import DocPrologue.Proofs.Scan

/-!
Writing documentation. A list of lines can be written as line comments, as a block comment, as one
attribute for each line, or as one attribute with a plain or a raw literal. Reading any of these
writings gives the lines back, so the forms agree with each other.
-/

namespace DocPrologue

open Text (isBlank)

namespace Written

def lineComments (lines : List Bytes) : Bytes :=
  lines.flatMap fun line => Comment.lineMark ++ Byte.space :: (line ++ [Byte.lf])

def blockBody (lines : List Bytes) : Bytes :=
  Byte.lf :: (lines.flatMap (fun line =>
    Byte.space :: Byte.star :: Byte.space :: (line ++ [Byte.lf])) ++ [Byte.space])

def blockComment (lines : List Bytes) : Bytes :=
  Comment.blockMark ++ (blockBody lines ++ [Byte.star, Byte.slash, Byte.lf])

def escapedByte (byte : UInt8) : Bytes :=
  if byte = Byte.quote then [Byte.backslash, Byte.quote]
  else if byte = Byte.backslash then [Byte.backslash, Byte.backslash]
  else if byte = Byte.cr then [Byte.backslash, 0x72]
  else [byte]

def plainLiteral (text : Bytes) : Bytes :=
  Byte.quote :: (text.flatMap escapedByte ++ [Byte.quote])

def rawLiteral (hashes : Nat) (text : Bytes) : Bytes :=
  Literal.rawMark ::
    (List.replicate hashes Byte.hash ++ Byte.quote :: (text ++ Literal.closing hashes))

def docAttribute (literal : Bytes) : Bytes :=
  Attribute.mark ++ Byte.openBracket ::
    (Attribute.docName ++ Byte.space :: Byte.equals :: Byte.space ::
      (literal ++ [Byte.closeBracket, Byte.lf]))

def docAttributes (lines : List Bytes) : Bytes :=
  lines.flatMap fun line => docAttribute (plainLiteral line)

end Written

namespace Cursor

def PassesDoc (cursor : Cursor) (form : Form) (lines : List Bytes) (rest : Bytes) : Prop :=
  ∃ region after, Passage cursor region after ∧ region.form = form ∧ region.lines = lines ∧
    region.trailing = false ∧ after.rest = rest

end Cursor

namespace Block.Scan

theorem result_of_passesDoc {scan : Scan} {form : Form} {lines : List Bytes} {rest : Bytes}
    (passes : scan.cursor.PassesDoc form lines rest) (doc : form.isDoc = true)
    (fits : scan.active = none ∨ scan.active = some form) :
    ∃ next : Scan, scan.result = next.result ∧ next.active = some form ∧
      next.lines = lines.reverse ++ scan.lines ∧ next.cursor.rest = rest := by
  obtain ⟨region, after, passage, rfl, rfl, clear, rfl⟩ := passes
  have same : scan.changesForm = false := by
    have told := passage.form_of_region (isRegion_of_doc doc).2
    rcases fits with fits | fits <;> simp [changesForm, fits, told]
  refine ⟨scan.passDoc region after, ?_, rfl, rfl, rfl⟩
  apply result_of_goOn
  rw [turn_of_doc same (Cursor.next_eq_ok_iff.mpr passage) doc, if_neg (by simp [clear])]

/-- A text at which a prologue ends: nothing, or a line of code that opens no attribute. -/
def EndsPrologue (tail : Bytes) : Prop :=
  tail = [] ∨ isBlank (Bytes.line tail) = false ∧
    ∀ mark ∈ [Comment.lineMark, Comment.blockMark, Attribute.mark],
      Bytes.startsWith mark (Bytes.line tail) = false

theorem result_of_endsPrologue {scan : Scan} (ends : EndsPrologue scan.cursor.rest) :
    scan.result = .ok scan.lines := by
  rcases ends with empty | ⟨visible, unmarked⟩
  · have form := (Cursor.peek_eq_endOfInput_iff scan.cursor).mpr empty
    have same : scan.changesForm = false := by
      cases scan.active <;> simp [changesForm, form, Form.isDoc]
    rw [result_eq, turn, if_neg (by simp [same]), Cursor.next_eq_ok_iff.mpr (.endOfInput form)]
  · have form : scan.cursor.peek = .code := by
      have more : scan.cursor.rest ≠ [] := by
        intro empty
        rw [empty] at visible
        exact absurd (visible.symm.trans Text.isBlank_nil) (by decide)
      simp only [Cursor.peek, List.isEmpty_iff, more, visible, unmarked _ (List.mem_cons_self ..)]
      simp [unmarked]
    have same : scan.changesForm = false := by
      cases scan.active <;> simp [changesForm, form, Form.isDoc]
    rw [result_eq, turn_of_code same (Cursor.next_eq_ok_iff.mpr (.code form)) rfl]

end Block.Scan

namespace Literal

theorem plain_escaped (whole seen text tail : Bytes) :
    plain whole seen (text.flatMap Written.escapedByte ++ Byte.quote :: tail) =
      .ok (seen.reverse ++ text, tail) := by
  induction text generalizing seen with
  | nil => rw [List.flatMap_nil, List.nil_append, plain_quote, List.append_nil]
  | cons byte text ih =>
      rw [List.flatMap_cons, List.append_assoc, Written.escapedByte]
      have goesOn := ih (byte :: seen)
      rw [List.reverse_cons, List.append_assoc, List.singleton_append] at goesOn
      split
      · rename_i quote
        subst quote
        rw [List.cons_append, List.singleton_append, plain_escape _ _ (by rfl)]
        exact goesOn
      · rename_i noQuote
        split
        · rename_i backslash
          subst backslash
          rw [List.cons_append, List.singleton_append, plain_escape _ _ (by rfl)]
          exact goesOn
        · rename_i noBackslash
          split
          · rename_i isReturn
            subst isReturn
            rw [List.cons_append, List.singleton_append, plain_escape _ _ (by rfl)]
            exact goesOn
          · rename_i noReturn
            rw [List.singleton_append, plain_byte _ _ noQuote noReturn noBackslash]
            exact goesOn

theorem reads_plainLiteral (text : Bytes) : Reads read (Written.plainLiteral text) text := by
  intro tail
  have done := plain_escaped (Written.plainLiteral text ++ tail) [] text tail
  simpa [Written.plainLiteral, read, Byte.quote, rawMark] using done

def Unclosed (hashes : Nat) (text : Bytes) : Prop :=
  ∀ before after, text = before ++ Byte.quote :: after → ¬List.replicate hashes Byte.hash <+: after

theorem closing_not_earlier {hashes : Nat} {byte : UInt8} {text : Bytes}
    (unclosed : Unclosed hashes (byte :: text)) (tail : Bytes) :
    ¬Bytes.startsWith (closing hashes) (byte :: (text ++ (closing hashes ++ tail))) = true := by
  intro earlier
  obtain ⟨rest, shape⟩ := Bytes.startsWith_iff.mp earlier
  have both : byte = Byte.quote ∧
      text ++ (closing hashes ++ tail) = List.replicate hashes Byte.hash ++ rest :=
    List.cons.inj shape
  obtain ⟨rfl, behind⟩ := both
  -- The hashes either lie inside the text or reach the quote of the closing mark.
  rcases List.append_eq_append_iff.mp behind with ⟨more, inside, after⟩ | ⟨more, inside, -⟩
  · cases more with
    | nil =>
        exact unclosed [] text rfl ⟨[], by rw [inside, List.append_nil, List.append_nil]⟩
    | cons first more =>
        have first_eq : Byte.quote = first := (List.cons.inj after).1
        have member : first ∈ List.replicate hashes Byte.hash := by simp [inside]
        have hash := (List.mem_replicate.mp member).2
        rw [← first_eq] at hash
        exact absurd hash (by decide)
  · exact unclosed [] text rfl ⟨more, inside.symm⟩

theorem findFrom_closing {hashes : Nat} {text : Bytes} (unclosed : Unclosed hashes text)
    (passed : Nat) (tail : Bytes) :
    Bytes.findFrom (closing hashes) passed (text ++ (closing hashes ++ tail)) =
      some (passed + text.length) := by
  induction text generalizing passed with
  | nil => rw [List.nil_append, Bytes.findFrom_append, List.length_nil, Nat.add_zero]
  | cons byte text ih =>
      have later : Unclosed hashes text := by
        intro before after shape
        exact unclosed (byte :: before) after (by rw [shape, List.cons_append])
      rw [List.cons_append, Bytes.findFrom, if_neg (closing_not_earlier unclosed tail), ih later,
        List.length_cons]
      congr 1
      omega

theorem reads_raw {hashes : Nat} {text : Bytes} (unclosed : Unclosed hashes text) :
    Reads read (Written.rawLiteral hashes text) (Bytes.dropReturns text) := by
  intro tail
  have allHash : ∀ byte ∈ List.replicate hashes Byte.hash, byte = Byte.hash :=
    fun byte member => (List.mem_replicate.mp member).2
  have found := findFrom_closing unclosed 0 tail
  rw [Written.rawLiteral, List.cons_append, read, if_pos rfl, List.append_assoc,
    List.cons_append, List.append_assoc, raw_eq allHash, List.length_replicate, Bytes.find?,
    found]
  simp only [Nat.zero_add, drop_closing, List.take_left]

theorem reads_rawLiteral {hashes : Nat} {text : Bytes} (noReturn : Byte.cr ∉ text)
    (unclosed : Unclosed hashes text) : Reads read (Written.rawLiteral hashes text) text := by
  have reads := reads_raw unclosed
  rwa [(DropsReturns.of_not_mem noReturn).dropReturns_eq] at reads

end Literal

namespace Comment

def Unmarked (line : Bytes) : Prop :=
  ¬[Byte.slash, Byte.star] <:+: line ∧ ¬[Byte.star, Byte.slash] <:+: line

theorem closeFrom_unmarked {line : Bytes} (unmarked : Unmarked line) (inner passed : Nat)
    (rest : Bytes) :
    closeFrom inner passed (line ++ Byte.lf :: rest) =
      closeFrom inner (passed + line.length + 1) rest := by
  induction line generalizing passed with
  | nil => exact closeFrom_neutral (by decide) (by decide) inner passed rest
  | cons first line ih =>
      have later : Unmarked line :=
        ⟨fun found => unmarked.1 (found.trans (List.suffix_cons first line).isInfix),
          fun found => unmarked.2 (found.trans (List.suffix_cons first line).isInfix)⟩
      have goesOn := ih later (passed + 1)
      have count : passed + 1 + line.length + 1 = passed + (first :: line).length + 1 := by
        rw [List.length_cons]
        omega
      rw [count] at goesOn
      rw [← goesOn]
      cases line with
      | nil =>
          apply closeFrom_byte
          · exact fun both => absurd both.2 (by decide)
          · exact fun both => absurd both.2 (by decide)
      | cons second line =>
          apply closeFrom_byte
          · rintro ⟨rfl, rfl⟩
            exact unmarked.1 ⟨[], line, rfl⟩
          · rintro ⟨rfl, rfl⟩
            exact unmarked.2 ⟨[], line, rfl⟩

theorem bodyLength?_blockBody {lines : List Bytes} (unmarked : ∀ line ∈ lines, Unmarked line)
    (tail : Bytes) :
    bodyLength? (Written.blockBody lines ++ Byte.star :: Byte.slash :: tail) =
      some (Written.blockBody lines).length := by
  have all (passed : Nat) :
      closeFrom 0 passed (lines.flatMap (fun line =>
        Byte.space :: Byte.star :: Byte.space :: (line ++ [Byte.lf])) ++
          Byte.space :: Byte.star :: Byte.slash :: tail) =
        some (passed + (lines.flatMap fun line =>
          Byte.space :: Byte.star :: Byte.space :: (line ++ [Byte.lf])).length + 1) := by
    induction lines generalizing passed with
    | nil =>
        rw [List.flatMap_nil, List.nil_append, closeFrom_neutral (by decide) (by decide),
          closeFrom_close, List.length_nil, Nat.add_zero]
    | cons line lines ih =>
        have later := ih fun other member => unmarked other (by simp [member])
        rw [List.flatMap_cons, List.append_assoc, List.cons_append, List.cons_append,
          List.cons_append, List.append_assoc, List.singleton_append,
          closeFrom_neutral (by decide) (by decide),
          closeFrom_byte _ _ _ (by decide) (by decide),
          closeFrom_neutral (by decide) (by decide),
          closeFrom_unmarked (unmarked line (by simp)), later]
        simp only [List.length_append, List.length_cons, List.length_nil, Option.some.injEq]
        omega
  rw [Written.blockBody, bodyLength?, List.cons_append, List.append_assoc, List.singleton_append,
    closeFrom_neutral (by decide) (by decide), all, Option.some.injEq]
  simp only [List.length_append, List.length_cons, List.length_nil]
  omega

theorem continuation_starred {line : Bytes} (shown : line = [] ∨ isBlank line = false) :
    continuation (Byte.space :: Byte.star :: Byte.space :: line) = line := by
  have stripped : continuation (Byte.space :: Byte.star :: Byte.space :: line) =
      if isBlank line then [] else line := by
    simp [continuation, Byte.isSpaceOrTab, Bytes.dropLeading, Byte.space, Byte.star, Byte.tab]
  rw [stripped]
  rcases shown with rfl | visible
  · rw [ite_self]
  · rw [visible, if_neg (by decide)]

theorem laterLines_cons {line : Bytes} {rest : List Bytes} (more : rest ≠ []) :
    laterLines (line :: rest) = continuation line :: laterLines rest := by
  cases rest with
  | nil => contradiction
  | cons next rest => rfl

theorem laterLines_starred {lines : List Bytes}
    (shown : ∀ line ∈ lines, line = [] ∨ isBlank line = false) :
    laterLines (lines.map (Byte.space :: Byte.star :: Byte.space :: ·) ++ [[Byte.space]]) =
      lines := by
  induction lines with
  | nil =>
      have blank : isBlank [Byte.space] = true := by
        rw [Text.isBlank_cons_ascii (by decide), Text.isBlank_nil]
        rfl
      rw [List.map_nil, List.nil_append, laterLines, if_pos blank]
  | cons line lines ih =>
      rw [List.map_cons, List.cons_append, laterLines_cons (by simp),
        continuation_starred (shown line (by simp)),
        ih fun other member => shown other (by simp [member])]

theorem blockLines_blockBody {lines : List Bytes} (unbroken : ∀ line ∈ lines, Byte.lf ∉ line)
    (noReturn : ∀ line ∈ lines, line.getLast? ≠ some Byte.cr)
    (shown : ∀ line ∈ lines, line = [] ∨ isBlank line = false) :
    blockLines (Written.blockBody lines) = lines := by
  have parts : Bytes.split Byte.lf (Written.blockBody lines) =
      [] :: (lines.map (Byte.space :: Byte.star :: Byte.space :: ·) ++ [[Byte.space]]) := by
    rw [Written.blockBody, ← List.nil_append (Byte.lf :: _), Bytes.split_append _ _ (by simp)]
    congr 1
    induction lines with
    | nil => rfl
    | cons line lines ih =>
        have inside : Byte.lf ∉ Byte.space :: Byte.star :: Byte.space :: line := by
          simp [unbroken line (by simp), Byte.lf, Byte.space, Byte.star]
        have later := ih (fun other member => unbroken other (by simp [member]))
          (fun other member => noReturn other (by simp [member]))
          fun other member => shown other (by simp [member])
        have front := Bytes.split_append _ (lines.flatMap (fun line =>
          Byte.space :: Byte.star :: Byte.space :: (line ++ [Byte.lf])) ++ [Byte.space]) inside
        rw [later] at front
        simpa using front
  have kept : (Bytes.split Byte.lf (Written.blockBody lines)).map (Bytes.dropTrailing Byte.cr) =
      [] :: (lines.map (Byte.space :: Byte.star :: Byte.space :: ·) ++ [[Byte.space]]) := by
    rw [parts, List.map_cons, List.map_append, List.map_map]
    congr 2
    apply List.map_congr_left
    intro line member
    apply Bytes.dropTrailing_of_getLast?
    cases line with
    | nil => decide
    | cons byte line => simpa using noReturn (byte :: line) member
  have later := laterLines_starred shown
  unfold blockLines
  rw [kept]
  cases starred : lines.map (Byte.space :: Byte.star :: Byte.space :: ·) ++ [[Byte.space]] with
  | nil => simp at starred
  | cons first others =>
      rw [starred] at later
      simp only [Bytes.dropLeading, Text.isBlank_nil, if_true, later]

end Comment

namespace Cursor

theorem passesDoc_lineComment {line rest : Bytes} (unbroken : Byte.lf ∉ line)
    (noReturn : line.getLast? ≠ some Byte.cr) {cursor : Cursor}
    (shape : cursor.rest = (Comment.lineMark ++ Byte.space :: (line ++ [Byte.lf])) ++ rest) :
    cursor.PassesDoc .lineComment [line] rest := by
  have inside : Byte.lf ∉ Comment.lineMark ++ Byte.space :: line := by
    simp [unbroken, Comment.lineMark, Byte.lf, Byte.slash, Byte.bang, Byte.space]
  have kept : Bytes.dropTrailing Byte.cr (Comment.lineMark ++ Byte.space :: line) =
      Comment.lineMark ++ Byte.space :: line := by
    apply Bytes.dropTrailing_of_getLast?
    cases line with
    | nil => decide
    | cons byte line => simpa [Comment.lineMark] using noReturn
  have whole : cursor.rest = (Comment.lineMark ++ Byte.space :: line) ++ Byte.lf :: rest := by
    rw [shape]
    simp
  have form : cursor.peek = .lineComment :=
    (peek_eq_lineComment_iff cursor).mpr
      (Bytes.startsWith_iff.mpr ⟨_, by rw [shape, List.append_assoc]⟩)
  refine ⟨_, _, .lineComment form, rfl, ?_, rfl, ?_⟩
  · simp only
    rw [whole, Bytes.line_of_body inside, kept, List.drop_left]
    rfl
  · simp only [skipLine]
    rw [whole, Bytes.afterLine_of_body inside]

theorem passesDoc_blockComment {lines : List Bytes} {rest : Bytes}
    (unbroken : ∀ line ∈ lines, Byte.lf ∉ line)
    (noReturn : ∀ line ∈ lines, line.getLast? ≠ some Byte.cr)
    (shown : ∀ line ∈ lines, line = [] ∨ isBlank line = false)
    (unmarked : ∀ line ∈ lines, Comment.Unmarked line) {cursor : Cursor}
    (shape : cursor.rest = Written.blockComment lines ++ rest) :
    cursor.PassesDoc .blockComment lines rest := by
  have whole : cursor.rest = Comment.blockMark ++
      (Written.blockBody lines ++ Byte.star :: Byte.slash :: Byte.lf :: rest) := by
    rw [shape, Written.blockComment]
    simp
  have closed := Comment.bodyLength?_blockBody unmarked (Byte.lf :: rest)
  refine ⟨_, _, .blockComment whole closed, rfl,
    Comment.blockLines_blockBody unbroken noReturn shown, ?_, ?_⟩
  · simp [Bytes.line_feed, Text.isBlank_nil]
  · simp only [moveTo, Bytes.afterLine_feed]

theorem body?_docAttribute (literal rest : Bytes) :
    Attribute.body? (Written.docAttribute literal ++ rest) =
      some (Attribute.docName ++ ([Byte.space] ++ Byte.equals :: ([Byte.space] ++
        (literal ++ Byte.closeBracket :: Byte.lf :: rest)))) := by
  refine Attribute.body?_eq_some_iff.mpr ⟨[], by simp [Bytes.IsGap], ?_⟩
  rw [Written.docAttribute]
  simp

theorem passesDoc_docAttribute {literal text rest : Bytes} (reads : Reads Literal.read literal text)
    {cursor : Cursor} (shape : cursor.rest = Written.docAttribute literal ++ rest) :
    cursor.PassesDoc .docAttribute (Bytes.split Byte.lf text) rest := by
  have noGap : Bytes.IsGap [] := by simp [Bytes.IsGap]
  have oneGap : Bytes.IsGap [Byte.space] := by simp [Bytes.IsGap, Byte.isGap]
  have read := reads (Byte.closeBracket :: Byte.lf :: rest)
  have opened := body?_docAttribute literal rest
  rw [← shape] at opened
  have valued := Attribute.literal?_eq_some_iff.mpr
    ⟨Literal.isStart_of_read read, [], [Byte.space], [Byte.space], noGap, oneGap, oneGap, rfl⟩
  have closed := Attribute.read_eq_ok_iff.mpr ⟨[], noGap, read⟩
  refine ⟨_, _, .docAttribute opened valued closed, rfl, rfl, ?_, ?_⟩
  · simp [Bytes.line_feed, Text.isBlank_nil]
  · simp only [moveTo, Bytes.afterLine_feed]

theorem ofSource_slash (name rest : Bytes) :
    ofSource name (Byte.slash :: rest) = ⟨name, Place.start, Byte.slash :: rest⟩ := rfl

theorem ofSource_docAttribute (name literal rest : Bytes) :
    ofSource name (Written.docAttribute literal ++ rest) =
      ⟨name, Place.start, Written.docAttribute literal ++ rest⟩ := by
  have noMark : Bytes.after? byteOrderMark (Written.docAttribute literal ++ rest) = none := rfl
  rw [ofSource, noMark]
  apply if_neg
  rw [body?_docAttribute]
  simp

end Cursor

namespace Block

namespace Scan

theorem result_flatMap (form : Form) (doc : form.isDoc = true) {write : Bytes → Bytes}
    {lines : List Bytes} {tail : Bytes} (ends : EndsPrologue tail)
    (passes : ∀ line ∈ lines, ∀ (cursor : Cursor) (rest : Bytes),
      cursor.rest = write line ++ rest → cursor.PassesDoc form [line] rest)
    {scan : Scan} (fits : scan.active = none ∨ scan.active = some form)
    (shape : scan.cursor.rest = lines.flatMap write ++ tail) :
    scan.result = .ok (lines.reverse ++ scan.lines) := by
  induction lines generalizing scan with
  | nil => exact result_of_endsPrologue (by rwa [shape])
  | cons line lines ih =>
      rw [List.flatMap_cons, List.append_assoc] at shape
      obtain ⟨next, same, active, gathered, rest⟩ :=
        result_of_passesDoc (passes line (by simp) _ _ shape) doc fits
      rw [same, ih (fun other member => passes other (by simp [member])) (.inr active) rest,
        gathered]
      simp

theorem result_of_one (form : Form) (doc : form.isDoc = true) {lines : List Bytes} {tail : Bytes}
    (ends : EndsPrologue tail) {scan : Scan} (fresh : scan.active = none)
    (passes : scan.cursor.PassesDoc form lines tail) :
    scan.result = .ok (lines.reverse ++ scan.lines) := by
  obtain ⟨next, same, -, gathered, rest⟩ := result_of_passesDoc passes doc (.inl fresh)
  rw [same, result_of_endsPrologue (by rwa [rest]), gathered]

end Scan

theorem extract_of_result {name source : Bytes} {lines : List Bytes}
    (read : (Scan.start name source).result = .ok (lines.reverse ++ []))
    (shown : ∀ line, lines.getLast? = some line → isBlank line = false) :
    extract name source = .ok lines := by
  rw [Scan.extract_eq, read]
  simp only [List.append_nil]
  have kept : lines.reverse.dropWhile isBlank = lines.reverse := by
    cases reversed : lines.reverse with
    | nil => rfl
    | cons last others =>
        have visible : isBlank last = false := by
          apply shown
          rw [List.getLast?_eq_head?_reverse, reversed, List.head?_cons]
        rw [List.dropWhile_cons_of_neg (by simp [visible])]
  rw [kept, List.reverse_reverse]

section Written

variable (name : Bytes) {lines : List Bytes} (nonempty : lines ≠ [])
  (unbroken : ∀ line ∈ lines, Byte.lf ∉ line)
  (shown : ∀ line, lines.getLast? = some line → isBlank line = false)
  {tail : Bytes} (ends : Scan.EndsPrologue tail)

include nonempty unbroken shown ends

theorem extract_lineComments (noReturn : ∀ line ∈ lines, line.getLast? ≠ some Byte.cr) :
    extract name (Written.lineComments lines ++ tail) = .ok lines := by
  obtain ⟨first, others, rfl⟩ := List.exists_cons_of_ne_nil nonempty
  have start : (Scan.start name (Written.lineComments (first :: others) ++ tail)).cursor.rest =
      Written.lineComments (first :: others) ++ tail :=
    congrArg Cursor.rest (Cursor.ofSource_slash name _)
  apply extract_of_result _ shown
  apply Scan.result_flatMap .lineComment rfl ends _ (.inl rfl) start
  intro line member cursor rest shape
  exact Cursor.passesDoc_lineComment (unbroken line member) (noReturn line member) shape

theorem extract_docAttributes :
    extract name (Written.docAttributes lines ++ tail) = .ok lines := by
  obtain ⟨first, others, rfl⟩ := List.exists_cons_of_ne_nil nonempty
  have start : (Scan.start name (Written.docAttributes (first :: others) ++ tail)).cursor.rest =
      Written.docAttributes (first :: others) ++ tail := by
    have written : Written.docAttributes (first :: others) ++ tail =
        Written.docAttribute (Written.plainLiteral first) ++
          (Written.docAttributes others ++ tail) := by
      simp [Written.docAttributes]
    rw [written]
    exact congrArg Cursor.rest (Cursor.ofSource_docAttribute name _ _)
  apply extract_of_result _ shown
  apply Scan.result_flatMap .docAttribute rfl ends _ (.inl rfl) start
  intro line member cursor rest shape
  have passes := Cursor.passesDoc_docAttribute (Literal.reads_plainLiteral line) shape
  rwa [Bytes.split_of_not_mem (unbroken line member)] at passes

theorem extract_docAttribute {literal : Bytes}
    (reads : Reads Literal.read literal (text lines)) :
    extract name (Written.docAttribute literal ++ tail) = .ok lines := by
  apply extract_of_result _ shown
  apply Scan.result_of_one .docAttribute rfl ends rfl
  have passes := Cursor.passesDoc_docAttribute reads
    (congrArg Cursor.rest (Cursor.ofSource_docAttribute name _ tail))
  have parts : Bytes.split Byte.lf (text lines) = lines := Bytes.split_join nonempty unbroken
  rwa [parts] at passes

omit nonempty in
theorem extract_blockComment (noReturn : ∀ line ∈ lines, line.getLast? ≠ some Byte.cr)
    (visible : ∀ line ∈ lines, line = [] ∨ isBlank line = false)
    (unmarked : ∀ line ∈ lines, Comment.Unmarked line) :
    extract name (Written.blockComment lines ++ tail) = .ok lines := by
  apply extract_of_result _ shown
  apply Scan.result_of_one .blockComment rfl ends rfl
  apply Cursor.passesDoc_blockComment unbroken noReturn visible unmarked
  exact congrArg Cursor.rest (Cursor.ofSource_slash name _)

end Written

theorem not_mem_text {lines : List Bytes} {byte : UInt8} (noFeed : byte ≠ Byte.lf)
    (absent : ∀ line ∈ lines, byte ∉ line) : byte ∉ text lines := by
  cases lines with
  | nil => simp [text, Bytes.join]
  | cons first others =>
      intro member
      simp only [text, Bytes.join, List.mem_append, List.mem_flatMap, List.mem_cons,
        List.not_mem_nil, or_false] at member
      rcases member with early | ⟨line, among, feed | late⟩
      · exact absent first (by simp) early
      · exact noFeed feed
      · exact absent line (by simp [among]) late

/-- Lines that are written in any of the forms are read back, whatever code follows them. -/
theorem extract_written (name : Bytes) (lines : List Bytes) (nonempty : lines ≠ [])
    (unbroken : ∀ line ∈ lines, Byte.lf ∉ line)
    (shown : ∀ line, lines.getLast? = some line → isBlank line = false)
    {tail : Bytes} (ends : Scan.EndsPrologue tail) :
    ((∀ line ∈ lines, line.getLast? ≠ some Byte.cr) →
      extract name (Written.lineComments lines ++ tail) = .ok lines) ∧
    ((∀ line ∈ lines, line.getLast? ≠ some Byte.cr ∧ (line = [] ∨ isBlank line = false) ∧
        Comment.Unmarked line) →
      extract name (Written.blockComment lines ++ tail) = .ok lines) ∧
    extract name (Written.docAttributes lines ++ tail) = .ok lines ∧
    extract name (Written.docAttribute (Written.plainLiteral (text lines)) ++ tail) = .ok lines ∧
    ∀ hashes, (∀ line ∈ lines, Byte.cr ∉ line) → Literal.Unclosed hashes (text lines) →
      extract name (Written.docAttribute (Written.rawLiteral hashes (text lines)) ++ tail) =
        .ok lines := by
  refine ⟨?_, ?_, ?_, ?_, ?_⟩
  · exact extract_lineComments name nonempty unbroken shown ends
  · intro fine
    exact extract_blockComment name unbroken shown ends (fun line member => (fine line member).1)
      (fun line member => (fine line member).2.1) fun line member => (fine line member).2.2
  · exact extract_docAttributes name nonempty unbroken shown ends
  · exact extract_docAttribute name nonempty unbroken shown ends
      (Literal.reads_plainLiteral (text lines))
  · intro hashes noReturn unclosed
    exact extract_docAttribute name nonempty unbroken shown ends
      (Literal.reads_rawLiteral (not_mem_text (by decide) noReturn) unclosed)

theorem extract_written_quotes :
    let lines : List Bytes := [[0x22, 0x5C], [], [0x61]]
    let tail : Bytes := [0x66, 0x6E, 0x0A]
    Scan.EndsPrologue tail ∧ Literal.Unclosed 1 (text lines) ∧
    extract [] (Written.lineComments lines ++ tail) = .ok lines ∧
    extract [] (Written.blockComment lines ++ tail) = .ok lines ∧
    extract [] (Written.docAttributes lines ++ tail) = .ok lines ∧
    extract [] (Written.docAttribute (Written.plainLiteral (text lines)) ++ tail) = .ok lines ∧
    extract [] (Written.docAttribute (Written.rawLiteral 1 (text lines)) ++ tail) = .ok lines := by
  intro lines tail
  have ends : Scan.EndsPrologue tail := by
    refine .inr ⟨?_, by decide⟩
    exact (Text.isBlank_cons_ascii (by decide) _).trans (Bool.false_and _)
  have unclosed : Literal.Unclosed 1 (text lines) := by
    intro before after shape front
    have member : Byte.hash ∈ text lines := by
      rw [shape]
      simp [front.subset (List.mem_singleton.mpr rfl)]
    exact absurd member (by decide)
  have visible : isBlank [0x61] = false :=
    (Text.isBlank_cons_ascii (by decide) _).trans (Bool.false_and _)
  have quotes : isBlank [0x22, 0x5C] = false :=
    (Text.isBlank_cons_ascii (by decide) _).trans (Bool.false_and _)
  obtain ⟨first, second, third, fourth, fifth⟩ :=
    extract_written [] lines (by decide) (by decide) (by simp [lines, visible]) ends
  refine ⟨ends, unclosed, first (by decide), second ?_, third, fourth,
    fifth 1 (by decide) unclosed⟩
  intro line member
  simp only [lines, List.mem_cons, List.not_mem_nil, or_false] at member
  unfold Comment.Unmarked
  rcases member with rfl | rfl | rfl
  · exact ⟨by decide, .inr quotes, by decide⟩
  · exact ⟨by decide, .inl rfl, by decide⟩
  · exact ⟨by decide, .inr visible, by decide⟩

end Block

end DocPrologue
