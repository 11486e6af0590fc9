import DocPrologue.Cursor

/-!
Physical lines. A line is told by what stands up to its line feed, so what follows that line feed
changes neither the line nor the form of a cursor that stands at it; only an attribute, which may
run over several lines, is told by more.
-/

namespace DocPrologue

namespace Byte

variable {byte : UInt8}

theorem isSpaceOrTab_iff : isSpaceOrTab byte = true ↔ byte = space ∨ byte = tab := by
  simp [isSpaceOrTab]

theorem isGap_iff :
    isGap byte = true ↔ byte = space ∨ byte = tab ∨ byte = cr ∨ byte = lf := by
  simp [isGap, or_assoc]

end Byte

namespace Bytes

theorem after?_eq_some_iff {start text rest : Bytes} :
    after? start text = some rest ↔ text = start ++ rest := by
  fun_induction after? start text with
  | case1 text => simp [eq_comm]
  | case2 expected start => simp
  | case3 start byte text ih => simpa using ih
  | case4 expected start byte text different => simp [different]

theorem after?_append (start rest : Bytes) : after? start (start ++ rest) = some rest :=
  after?_eq_some_iff.mpr rfl

theorem startsWith_iff {start text : Bytes} :
    startsWith start text = true ↔ ∃ rest, text = start ++ rest := by
  simp [startsWith, Option.isSome_iff_exists, after?_eq_some_iff]

theorem takeWhile_line {body : Bytes} (inside : Byte.lf ∉ body) (rest : Bytes) :
    (body ++ Byte.lf :: rest).takeWhile (· != Byte.lf) = body := by
  rw [List.takeWhile_append_of_pos]
  · simp
  · intro byte member
    simpa using fun same : byte = Byte.lf => inside (same ▸ member)

theorem dropWhile_line {body : Bytes} (inside : Byte.lf ∉ body) (rest : Bytes) :
    (body ++ Byte.lf :: rest).dropWhile (· != Byte.lf) = Byte.lf :: rest := by
  rw [List.dropWhile_append_of_pos]
  · simp
  · intro byte member
    simpa using fun same : byte = Byte.lf => inside (same ▸ member)

theorem line_of_body {body : Bytes} (inside : Byte.lf ∉ body) (rest : Bytes) :
    line (body ++ Byte.lf :: rest) = dropTrailing Byte.cr body := by
  rw [line, takeWhile_line inside]

theorem afterLine_of_body {body : Bytes} (inside : Byte.lf ∉ body) (rest : Bytes) :
    afterLine (body ++ Byte.lf :: rest) = rest := by
  rw [afterLine, dropWhile_line inside, List.drop_one, List.tail_cons]

theorem wholeLine_of_body {body : Bytes} (inside : Byte.lf ∉ body) (rest : Bytes) :
    wholeLine (body ++ Byte.lf :: rest) = body ++ [Byte.lf] := by
  rw [wholeLine, takeWhile_line inside, dropWhile_line inside]
  simp

theorem takeWhile_line_cons {byte : UInt8} (noFeed : byte ≠ Byte.lf) (rest : Bytes) :
    (byte :: rest).takeWhile (· != Byte.lf) = byte :: rest.takeWhile (· != Byte.lf) :=
  List.takeWhile_cons_of_pos (by simpa using noFeed)

theorem dropWhile_line_cons {byte : UInt8} (noFeed : byte ≠ Byte.lf) (rest : Bytes) :
    (byte :: rest).dropWhile (· != Byte.lf) = rest.dropWhile (· != Byte.lf) :=
  List.dropWhile_cons_of_pos (by simpa using noFeed)

theorem line_feed (rest : Bytes) : line (Byte.lf :: rest) = [] :=
  line_of_body List.not_mem_nil rest

theorem afterLine_feed (rest : Bytes) : afterLine (Byte.lf :: rest) = rest :=
  afterLine_of_body List.not_mem_nil rest

theorem wholeLine_append_afterLine (text : Bytes) : wholeLine text ++ afterLine text = text := by
  rw [wholeLine, afterLine, List.append_assoc, List.take_append_drop,
    List.takeWhile_append_dropWhile]

section Ended

variable {head : Bytes} (ended : Byte.lf ∈ head) (tail : Bytes)

include ended

theorem line_append : line (head ++ tail) = line head := by
  obtain ⟨body, rest, rfl, inside⟩ := List.eq_append_cons_of_mem ended
  rw [List.append_assoc, List.cons_append, line_of_body inside, line_of_body inside]

theorem wholeLine_append : wholeLine (head ++ tail) = wholeLine head := by
  obtain ⟨body, rest, rfl, inside⟩ := List.eq_append_cons_of_mem ended
  rw [List.append_assoc, List.cons_append, wholeLine_of_body inside, wholeLine_of_body inside]

theorem startsWith_append {mark : Bytes} (within : Byte.lf ∉ mark) :
    startsWith mark (head ++ tail) = startsWith mark head := by
  rw [Bool.eq_iff_iff, startsWith_iff, startsWith_iff]
  constructor
  · rintro ⟨rest, same⟩
    rcases List.append_eq_append_iff.mp same with ⟨more, rfl, -⟩ | ⟨more, rfl, -⟩
    · exact absurd (List.mem_append_left more ended) within
    · exact ⟨more, rfl⟩
  · rintro ⟨rest, rfl⟩
    exact ⟨rest ++ tail, List.append_assoc mark rest tail⟩

end Ended

theorem wholeLine_ne_nil {text : Bytes} (more : text ≠ []) : wholeLine text ≠ [] := by
  intro empty
  have shorter := afterLine_length_lt more
  have whole := congrArg List.length (wholeLine_append_afterLine text)
  rw [empty, List.nil_append] at whole
  omega

theorem wholeLine_ended (text : Bytes) :
    (wholeLine text).getLast? = some Byte.lf ∨ afterLine text = [] := by
  by_cases feed : Byte.lf ∈ text
  · obtain ⟨body, rest, rfl, inside⟩ := List.eq_append_cons_of_mem feed
    rw [wholeLine_of_body inside]
    exact .inl List.getLast?_concat
  · have passed : (text ++ []).dropWhile (· != Byte.lf) = [] := by
      apply List.dropWhile_append_of_pos
      intro byte member
      simpa using fun same : byte = Byte.lf => feed (same ▸ member)
    rw [List.append_nil] at passed
    exact .inr (by rw [afterLine, passed, List.drop_nil])

section EndedLine

variable {text : Bytes} (ended : Byte.lf ∈ wholeLine text) (tail : Bytes)

include ended

theorem line_wholeLine_append : line (wholeLine text ++ tail) = line text := by
  rw [line_append ended, ← line_append ended (afterLine text), wholeLine_append_afterLine]

theorem wholeLine_wholeLine_append : wholeLine (wholeLine text ++ tail) = wholeLine text := by
  rw [wholeLine_append ended, ← wholeLine_append ended (afterLine text),
    wholeLine_append_afterLine]

theorem afterLine_wholeLine_append : afterLine (wholeLine text ++ tail) = tail := by
  have whole := wholeLine_append_afterLine (wholeLine text ++ tail)
  rw [wholeLine_wholeLine_append ended] at whole
  exact List.append_cancel_left whole

theorem startsWith_wholeLine_append (mark : Bytes) (within : Byte.lf ∉ mark) :
    startsWith mark (wholeLine text ++ tail) = startsWith mark text := by
  rw [startsWith_append ended _ within, ← startsWith_append ended (afterLine text) within,
    wholeLine_append_afterLine]

end EndedLine

def IsGap (text : Bytes) : Prop := ∀ byte ∈ text, Byte.isGap byte = true

instance (text : Bytes) : Decidable (IsGap text) :=
  inferInstanceAs (Decidable (∀ byte ∈ text, Byte.isGap byte = true))

def NoGap (text : Bytes) : Prop := ∀ byte, text.head? = some byte → Byte.isGap byte = false

theorem noGap_cons {byte : UInt8} (token : Byte.isGap byte = false) (rest : Bytes) :
    NoGap (byte :: rest) := by
  intro first head
  simp only [List.head?_cons, Option.some.injEq] at head
  rw [← head, token]

theorem noGap_dropWhile (text : Bytes) : NoGap (text.dropWhile Byte.isGap) := by
  intro byte head
  have stop := List.head?_dropWhile_not Byte.isGap text
  simpa only [head] using stop

theorem dropWhile_gap {gap rest : Bytes} (isGap : IsGap gap) (stop : NoGap rest) :
    (gap ++ rest).dropWhile Byte.isGap = rest := by
  rw [List.dropWhile_append_of_pos isGap]
  cases rest with
  | nil => rfl
  | cons byte rest => simp [stop byte rfl]

theorem isGap_takeWhile (text : Bytes) : IsGap (text.takeWhile Byte.isGap) :=
  List.all_eq_true.mp List.all_takeWhile

theorem dropTrailing_eq_or (byte : UInt8) (text : Bytes) :
    dropTrailing byte text = text ∨ text = dropTrailing byte text ++ [byte] := by
  unfold dropTrailing
  split
  · rename_i last
    right
    obtain ⟨front, rfl⟩ := List.getLast?_eq_some_iff.mp last
    simp
  · left
    rfl

theorem dropTrailing_of_getLast? {byte : UInt8} {text : Bytes}
    (different : text.getLast? ≠ some byte) : dropTrailing byte text = text := by
  rw [dropTrailing, if_neg different]

theorem trimRight_split (drop : UInt8 → Bool) (text : Bytes) :
    ∃ dropped, text = trimRight drop text ++ dropped ∧ ∀ byte ∈ dropped, drop byte = true := by
  refine ⟨(text.reverse.takeWhile drop).reverse, ?_, ?_⟩
  · rw [trimRight, ← List.reverse_append, List.takeWhile_append_dropWhile, List.reverse_reverse]
  · simpa using List.all_eq_true.mp (List.all_takeWhile (p := drop) (l := text.reverse))

theorem exists_eq_line_append (text : Bytes) : ∃ rest, text = line text ++ rest := by
  have whole := List.takeWhile_append_dropWhile (p := (· != Byte.lf)) (l := text)
  rcases dropTrailing_eq_or Byte.cr (text.takeWhile (· != Byte.lf)) with same | shorter
  · exact ⟨_, by rw [line, same, whole]⟩
  · refine ⟨Byte.cr :: text.dropWhile (· != Byte.lf), ?_⟩
    rw [List.append_cons, line, ← shorter, whole]

theorem startsWith_line (mark text : Bytes) (noFeed : Byte.lf ∉ mark)
    (noReturn : Byte.cr ∉ mark) : startsWith mark (line text) = startsWith mark text := by
  rw [Bool.eq_iff_iff, startsWith_iff, startsWith_iff]
  constructor
  · rintro ⟨rest, same⟩
    obtain ⟨more, whole⟩ := exists_eq_line_append text
    exact ⟨rest ++ more, by rw [whole, same, List.append_assoc]⟩
  · rintro ⟨rest, rfl⟩
    have passed : (mark ++ rest).takeWhile (· != Byte.lf) =
        mark ++ rest.takeWhile (· != Byte.lf) := by
      apply List.takeWhile_append_of_pos
      intro byte member
      simpa using fun same : byte = Byte.lf => noFeed (same ▸ member)
    rw [line, passed]
    rcases dropTrailing_eq_or Byte.cr (mark ++ rest.takeWhile (· != Byte.lf)) with same | shorter
    · exact ⟨_, same⟩
    · rcases List.append_eq_append_iff.mp shorter with ⟨more, kept, -⟩ | ⟨more, kept, last⟩
      · exact ⟨more, kept⟩
      · cases more with
        | nil => exact ⟨[], by simpa using kept.symm⟩
        | cons byte more =>
          have member : Byte.cr ∈ byte :: more := by
            simp only [List.cons_append, List.cons.injEq] at last
            simp [last.1]
          exact absurd (kept ▸ List.mem_append_right _ member) noReturn

theorem split_of_not_mem {separator : UInt8} {text : Bytes} (inside : separator ∉ text) :
    split separator text = [text] := by
  induction text with
  | nil => rfl
  | cons byte text ih =>
      simp only [List.mem_cons, not_or] at inside
      have rest := ih inside.2
      unfold split at rest ⊢
      rw [List.foldr_cons, rest, if_neg (Ne.symm inside.1), extendFirst]

theorem split_append {separator : UInt8} (part rest : Bytes) (inside : separator ∉ part) :
    split separator (part ++ separator :: rest) = part :: split separator rest := by
  induction part with
  | nil =>
      unfold split
      rw [List.nil_append, List.foldr_cons, if_pos rfl]
  | cons byte part ih =>
      simp only [List.mem_cons, not_or] at inside
      have later := ih inside.2
      unfold split at later ⊢
      rw [List.cons_append, List.foldr_cons, later, if_neg (Ne.symm inside.1), extendFirst]

theorem split_join {separator : UInt8} {parts : List Bytes} (some : parts ≠ [])
    (inside : ∀ part ∈ parts, separator ∉ part) :
    split separator (join [separator] parts) = parts := by
  cases parts with
  | nil => contradiction
  | cons part parts =>
      clear some
      induction parts generalizing part with
      | nil =>
          rw [join, List.flatMap_nil, List.append_nil, split_of_not_mem (inside part (by simp))]
      | cons next parts ih =>
          have later := ih next fun other member => inside other (by simp [member])
          rw [join] at later ⊢
          rw [List.flatMap_cons, List.append_assoc, List.singleton_append,
            split_append _ _ (inside part (by simp)), later]

end Bytes

namespace Text

theorem isBlank_nil : isBlank [] = true := by
  rw [isBlank]

theorem isBlank_cons_ascii {byte : UInt8} (ascii : byte < 0x80) (rest : Bytes) :
    isBlank (byte :: rest) = (isSpace byte.toNat && isBlank rest) := by
  have read : readGlyph byte rest = (.char byte.toNat, rest) := by
    unfold readGlyph
    rw [if_pos ascii]
  rw [isBlank, read]
  rfl

theorem isBlank_of_gap {text : Bytes} (gap : Bytes.IsGap text) : isBlank text = true := by
  induction text with
  | nil => exact isBlank_nil
  | cons byte rest ih =>
      have later := ih fun other member => gap other (by simp [member])
      rcases Byte.isGap_iff.mp (gap byte (by simp)) with rfl | rfl | rfl | rfl <;>
        rw [isBlank_cons_ascii (by decide), later] <;> rfl

theorem isBlank_of_startsWith {mark text : Bytes} {byte : UInt8}
    (marked : Bytes.startsWith (byte :: mark) text = true) (ascii : byte < 0x80)
    (visible : isSpace byte.toNat = false) : isBlank text = false := by
  obtain ⟨rest, rfl⟩ := Bytes.startsWith_iff.mp marked
  rw [List.cons_append, isBlank_cons_ascii ascii, visible, Bool.false_and]

end Text

theorem Place.advanceTo_append (place : Place) (used rest : Bytes) :
    place.advanceTo (used ++ rest) rest = place.advance used := by
  rw [advanceTo, List.length_append, Nat.add_sub_cancel, List.take_left]

namespace Attribute

theorem startsWith_of_body? {text : Bytes} (opened : (body? text).isSome) :
    Bytes.startsWith mark text = true := by
  unfold body? at opened
  unfold Bytes.startsWith
  cases marked : Bytes.after? mark text with
  | none => simp [marked] at opened
  | some rest => rfl

end Attribute

namespace Cursor

open Text (isBlank)

theorem peek_eq (cursor : Cursor) :
    cursor.peek =
      if cursor.rest = [] then .endOfInput
      else if isBlank (Bytes.line cursor.rest) then .blank
      else if Bytes.startsWith Comment.lineMark cursor.rest then .lineComment
      else if Bytes.startsWith Comment.blockMark cursor.rest then .blockComment
      else if (Attribute.body? cursor.rest).isSome then .docAttribute
      else .code := by
  have bracketed : (Bytes.startsWith Attribute.mark cursor.rest = true ∧
      (Attribute.body? cursor.rest).isSome) ↔ (Attribute.body? cursor.rest).isSome :=
    ⟨fun both => both.2, fun opened => ⟨Attribute.startsWith_of_body? opened, opened⟩⟩
  simp only [peek, List.isEmpty_iff,
    Bytes.startsWith_line Comment.lineMark _ (by decide) (by decide),
    Bytes.startsWith_line Comment.blockMark _ (by decide) (by decide),
    Bytes.startsWith_line Attribute.mark _ (by decide) (by decide), bracketed]

theorem line_not_blank {text mark : Bytes} {byte : UInt8}
    (marked : Bytes.startsWith (byte :: mark) text = true) (noFeed : Byte.lf ∉ byte :: mark)
    (noReturn : Byte.cr ∉ byte :: mark) (ascii : byte < 0x80)
    (visible : Text.isSpace byte.toNat = false) : isBlank (Bytes.line text) = false := by
  rw [← Bytes.startsWith_line _ _ noFeed noReturn] at marked
  exact Text.isBlank_of_startsWith marked ascii visible

theorem ne_nil_of_startsWith {text mark : Bytes} {byte : UInt8}
    (marked : Bytes.startsWith (byte :: mark) text = true) : text ≠ [] := by
  obtain ⟨rest, rfl⟩ := Bytes.startsWith_iff.mp marked
  simp

theorem peek_eq_endOfInput_iff (cursor : Cursor) :
    cursor.peek = .endOfInput ↔ cursor.rest = [] := by
  rw [peek_eq]
  constructor
  · intro form
    repeat' split at form
    all_goals first | assumption | contradiction
  · intro empty
    rw [if_pos empty]

theorem peek_eq_blank_iff (cursor : Cursor) :
    cursor.peek = .blank ↔ cursor.rest ≠ [] ∧ isBlank (Bytes.line cursor.rest) = true := by
  rw [peek_eq]
  constructor
  · intro form
    repeat' split at form
    all_goals first | exact ⟨by assumption, by assumption⟩ | contradiction
  · rintro ⟨more, blank⟩
    rw [if_neg more, if_pos blank]

theorem peek_eq_lineComment_iff (cursor : Cursor) :
    cursor.peek = .lineComment ↔ Bytes.startsWith Comment.lineMark cursor.rest = true := by
  rw [peek_eq]
  constructor
  · intro form
    repeat' split at form
    all_goals first | assumption | contradiction
  · intro marked
    have visible := line_not_blank marked (by decide) (by decide) (by decide) (by decide)
    rw [if_neg (ne_nil_of_startsWith marked), visible, if_neg (by decide), if_pos marked]

theorem peek_eq_blockComment_iff (cursor : Cursor) :
    cursor.peek = .blockComment ↔ Bytes.startsWith Comment.blockMark cursor.rest = true := by
  rw [peek_eq]
  constructor
  · intro form
    repeat' split at form
    all_goals first | assumption | contradiction
  · intro marked
    have visible := line_not_blank marked (by decide) (by decide) (by decide) (by decide)
    have other : ¬Bytes.startsWith Comment.lineMark cursor.rest = true := by
      obtain ⟨rest, shape⟩ := Bytes.startsWith_iff.mp marked
      rw [shape]
      simp [Bytes.startsWith, Bytes.after?, Comment.lineMark, Comment.blockMark, Byte.slash,
        Byte.star]
    rw [if_neg (ne_nil_of_startsWith marked), visible, if_neg (by decide), if_neg other,
      if_pos marked]

theorem peek_of_mark {cursor : Cursor}
    (marked : Bytes.startsWith Attribute.mark cursor.rest = true) :
    cursor.peek = if (Attribute.body? cursor.rest).isSome then .docAttribute else .code := by
  have visible := line_not_blank marked (by decide) (by decide) (by decide) (by decide)
  have comment : ∀ mark ∈ [Comment.lineMark, Comment.blockMark],
      ¬Bytes.startsWith mark cursor.rest = true := by
    obtain ⟨rest, shape⟩ := Bytes.startsWith_iff.mp marked
    rw [shape]
    simp [Bytes.startsWith, Bytes.after?, Comment.lineMark, Comment.blockMark, Attribute.mark,
      Byte.slash, Byte.hash]
  rw [peek_eq, if_neg (ne_nil_of_startsWith marked), visible, if_neg (by decide),
    if_neg (comment _ (by simp)), if_neg (comment _ (by simp))]

theorem peek_eq_docAttribute_iff (cursor : Cursor) :
    cursor.peek = .docAttribute ↔ (Attribute.body? cursor.rest).isSome = true := by
  constructor
  · intro form
    rw [peek_eq] at form
    repeat' split at form
    all_goals first | assumption | contradiction
  · intro opened
    rw [peek_of_mark (Attribute.startsWith_of_body? opened), if_pos opened]

end Cursor

end DocPrologue
