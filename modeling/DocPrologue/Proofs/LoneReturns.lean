import DocPrologue.Proofs.PlainLiterals

/-!
Carriage returns in plain literals. Behind the items of a literal a carriage return must stand in
front of a line feed. A continuation asks nothing of the carriage returns that it skips, neither of
the one that may begin its gap nor of the later ones.
-/

namespace DocPrologue

def Paired (text : Bytes) : Prop :=
  ∀ front behind, text = front ++ Byte.cr :: behind → behind.head? = some Byte.lf

theorem Paired.of_not_mem {text : Bytes} (clean : Byte.cr ∉ text) : Paired text := by
  rintro front behind rfl
  exact absurd (List.mem_append_right front (List.mem_cons_self ..)) clean

theorem paired_append_iff {first second : Bytes}
    (apart : first.getLast? = some Byte.cr → second.head? ≠ some Byte.lf) :
    Paired (first ++ second) ↔ Paired first ∧ Paired second := by
  constructor
  · intro paired
    constructor
    · rintro front behind rfl
      have feed := paired front (behind ++ second) (by simp)
      cases behind with
      | nil => exact absurd feed (apart (by simp))
      | cons byte behind => exact feed
    · rintro front behind rfl
      exact paired (first ++ front) behind (by simp)
  · rintro ⟨firstPaired, secondPaired⟩ front behind shape
    rcases List.append_eq_append_iff.mp shape with ⟨left, -, follows⟩ | ⟨left, inside, follows⟩
    · exact secondPaired left behind follows
    · cases left with
      | nil => exact secondPaired [] behind follows.symm
      | cons byte left =>
          obtain ⟨rfl, rfl⟩ := List.cons.inj follows
          simp [firstPaired front left inside]

namespace Literal

variable {text value rest gap : Bytes} {item other : Item} {items before after : List Item}

theorem Spells.not_mem {spelled : Bytes} {digits : List Nat} (spells : Spells spelled digits)
    {mark : UInt8} (noDigit : Byte.hexValue? mark = none) (noUnderscore : mark ≠ Byte.underscore) :
    mark ∉ spelled := by
  intro member
  rcases spells.of_mem member with underscore | ⟨digit, isDigit⟩
  · exact noUnderscore underscore
  · exact isDigit.ne_of_none noDigit rfl

theorem IsEscape.value_eq_nil (isEscape : IsEscape text value) (member : Byte.cr ∈ text) :
    value = [] := by
  cases isEscape with
  | letter known =>
      have unknown : simpleEscape? Byte.cr = none := rfl
      rw [List.mem_singleton.mp member, simpleEscape?_eq_some_iff.mpr known] at unknown
      contradiction
  | hex isHigh isLow _ =>
      have noDigit : Byte.hexValue? Byte.cr = none := rfl
      have high := isHigh.ne_of_none noDigit
      have low := isLow.ne_of_none noDigit
      simp [high.symm, low.symm, Byte.cr] at member
  | unicode spells _ _ _ _ =>
      have inside : Byte.cr ∉ _ := spells.not_mem rfl (by decide)
      simp [inside, Byte.cr, Byte.openBrace, Byte.closeBrace] at member
  | continuation _ _ => rfl

theorem Item.paired (item : Item) (stands : item.value ≠ []) :
    Paired item.text ∧ item.text.getLast? ≠ some Byte.cr := by
  obtain ⟨text, value, isItem⟩ := item
  have clean (free : Byte.cr ∉ text) : Paired text ∧ text.getLast? ≠ some Byte.cr :=
    ⟨.of_not_mem free, fun last => free (List.mem_of_getLast? last)⟩
  cases isItem with
  | byte _ noReturn _ => exact clean (by simp [noReturn.symm])
  | lineEnd =>
      refine ⟨fun front behind shape => ?_, by decide⟩
      rcases List.cons_eq_append_iff.mp shape with ⟨-, here⟩ | ⟨later, -, feed⟩
      · rw [(List.cons.inj here).2]
        rfl
      · have inside : Byte.cr ∈ [Byte.lf] := by simp [feed]
        exact absurd inside (by decide)
  | escape isEscape =>
      apply clean
      intro member
      rcases List.mem_cons.mp member with marked | inside
      · exact absurd marked (by decide)
      · exact stands (isEscape.value_eq_nil inside)

theorem Item.paired_append_iff (before : item.Before rest) :
    Paired (item.text ++ rest) ↔ (item.value = [] → Paired item.text) ∧ Paired rest := by
  by_cases none : item.value = []
  · -- The gap of a continuation is the longest one, so no line feed follows it.
    have apart : rest.head? ≠ some Byte.lf := fun feed => absurd (before none _ feed) (by decide)
    rw [DocPrologue.paired_append_iff fun _ => apart]
    simp [none]
  · obtain ⟨paired, last⟩ := item.paired none
    rw [DocPrologue.paired_append_iff fun isReturn => absurd isReturn last]
    simp [none, paired]

theorem paired_texts_iff (separate : Separate rest items) :
    Paired (texts items ++ rest) ↔
      (∀ item ∈ items, item.value = [] → Paired item.text) ∧ Paired rest := by
  induction items with
  | nil => simp [texts]
  | cons item items ih =>
      rw [texts_cons, Item.paired_append_iff separate.1, ih separate.2, List.forall_mem_cons,
        and_assoc]

theorem Plain.paired_iff (literal : Plain) :
    Paired literal.text ↔ ∀ item ∈ literal.items, item.value = [] → Paired item.text := by
  have quote : Paired [Byte.quote] := .of_not_mem (by decide)
  have whole : literal.text = [Byte.quote] ++ (texts literal.items ++ [Byte.quote]) := rfl
  rw [whole, paired_append_iff fun isReturn => absurd isReturn (by decide),
    paired_texts_iff literal.separate]
  simp [quote]

theorem unquote_bareReturn (separate : Separate (Byte.cr :: rest) items)
    (noFeed : rest.head? ≠ some Byte.lf) :
    unquote (Byte.quote :: (texts items ++ Byte.cr :: rest)) =
      .error ⟨(texts items).length + 1, .bareReturn⟩ := by
  rw [unquote, read_items separate, plain_stuck (.bareReturn noFeed), if_neg (by decide)]
  simp only [List.length_cons, List.length_append]
  congr 2
  omega

theorem head?_texts_cons (item : Item) (items : List Item) (rest : Bytes) :
    (texts (item :: items) ++ rest).head? = item.text.head? := by
  obtain ⟨byte, inner, shape, -⟩ := item.exists_cons
  rw [texts_cons, shape]
  rfl

theorem Item.head?_of_skipped (item : Item) (none : item.value = []) :
    item.text.head? = some Byte.backslash := by
  obtain ⟨text, value, isItem⟩ := item
  cases isItem with
  | byte _ _ _ => contradiction
  | lineEnd => contradiction
  | escape _ => rfl

theorem Separate.replace (separate : Separate rest (before ++ item :: after))
    (none : item.value = []) (otherNone : other.value = []) :
    Separate rest (before ++ other :: after) := by
  have sameHead : item.text.head? = other.text.head? :=
    (item.head?_of_skipped none).trans (other.head?_of_skipped otherNone).symm
  induction before with
  | nil => exact ⟨fun _ => separate.1 none, separate.2⟩
  | cons first before ih =>
      -- What stands in front sees one byte of the replaced item, and that is a backslash in both.
      have same : (texts (before ++ item :: after) ++ rest).head? =
          (texts (before ++ other :: after) ++ rest).head? := by
        cases before with
        | nil => exact (head?_texts_cons ..).trans (sameHead.trans (head?_texts_cons ..).symm)
        | cons next before => exact (head?_texts_cons ..).trans (head?_texts_cons ..).symm
      refine ⟨fun stands byte head => separate.1 stands byte ?_, ih separate.2⟩
      exact same.trans head

theorem Plain.exists_replaced (literal : Plain) (shape : literal.items = before ++ item :: after)
    (none : item.value = []) (isGap : Bytes.IsGap gap)
    (lineEnd : gap.head? = some Byte.lf ∨ gap.head? = some Byte.cr) :
    ∃ replaced : Plain, replaced.text =
        Byte.quote :: (texts before ++ Byte.backslash :: (gap ++ (texts after ++ [Byte.quote]))) ∧
      replaced.value = literal.value := by
  let other : Item := ⟨_, _, .escape (.continuation isGap lineEnd)⟩
  have separate := literal.separate
  rw [shape] at separate
  refine ⟨⟨before ++ other :: after, separate.replace none rfl⟩, ?_, ?_⟩
  · simp [Plain.text, texts, other]
  · simp [Plain.value, shape, values, none, other]

/-- A literal that is read is paired exactly if its continuations are, and each of them may skip any
other gap as well. Behind the other items a carriage return without a line feed is a fault. -/
theorem unquote_returns (body : Bytes) :
    (∀ value length, unquote (Byte.quote :: body) = .ok (value, length) →
      ∃ literal : Plain, literal.text = (Byte.quote :: body).take length ∧
        literal.value = value ∧
        (Paired literal.text ↔ ∀ item ∈ literal.items, item.value = [] → Paired item.text) ∧
        ∀ before item after gap replaced, literal.items = before ++ item :: after →
          item.value = [] → Bytes.IsGap gap →
          gap.head? = some Byte.lf ∨ gap.head? = some Byte.cr →
          replaced = Byte.quote ::
            (texts before ++ Byte.backslash :: (gap ++ (texts after ++ [Byte.quote]))) →
          unquote replaced = .ok (value, replaced.length)) ∧
    ∀ items rest, body = texts items ++ Byte.cr :: rest → Separate (Byte.cr :: rest) items →
      rest.head? ≠ some Byte.lf →
      unquote (Byte.quote :: body) = .error ⟨(texts items).length + 1, .bareReturn⟩ := by
  constructor
  · intro value length done
    obtain ⟨literal, ⟨rest, shape⟩, rfl, rfl⟩ := unquote_quote_iff.mp done
    rw [← shape, List.take_left]
    refine ⟨literal, rfl, rfl, literal.paired_iff, ?_⟩
    rintro before item after gap replaced items none isGap lineEnd rfl
    obtain ⟨other, text, value⟩ := literal.exists_replaced items none isGap lineEnd
    have unquoted := unquote_eq_ok_iff.mpr (other.reads [])
    rwa [List.append_nil, text, value] at unquoted
  · rintro items rest rfl separate noFeed
    exact unquote_bareReturn separate noFeed

namespace Continued

theorem isItem_letter : IsItem [0x61] [0x61] := .byte (by decide) (by decide) (by decide)

theorem isItem_feed : IsItem [Byte.backslash, Byte.lf, Byte.space] [] :=
  .escape (.continuation (by decide +kernel) (.inl rfl))

def letter : Item := ⟨_, _, isItem_letter⟩

def lineEnd : Item := ⟨_, _, .lineEnd⟩

def feed : Item := ⟨_, _, isItem_feed⟩

def plain : Plain where
  items := [letter, lineEnd, feed, letter]
  separate := by
    refine ⟨?_, ?_, fun _ => ?_, ?_, trivial⟩
    · simp [Item.Before, letter]
    · simp [Item.Before, lineEnd]
    · exact Bytes.noGap_cons (by decide : Byte.isGap 0x61 = false) _
    · simp [Item.Before, letter]

theorem unquote_returns_plain :
    Paired plain.text ∧ unquote plain.text = .ok (Text.utf8 "a\na", 9) ∧
      unquote (Text.utf8 "\"a\r\n\\\ra\"") = .ok (Text.utf8 "a\na", 8) ∧
      unquote (Text.utf8 "\"a\ra\"") = .error ⟨2, .bareReturn⟩ := by
  have unquoted : unquote plain.text = .ok (Text.utf8 "a\na", 9) :=
    unquote_eq_ok_iff.mpr (plain.reads [])
  obtain ⟨literal, text, -, paired, replaced⟩ := (unquote_returns _).1 _ _ unquoted
  have same : literal.text ++ [] = plain.text ++ [] := by rw [text]; rfl
  obtain rfl := Plain.unique same
  refine ⟨paired.mpr ?_, unquoted, ?_, ?_⟩
  · intro item member none
    rcases List.mem_cons.mp member with rfl | member
    · contradiction
    rcases List.mem_cons.mp member with rfl | member
    · contradiction
    rcases List.mem_cons.mp member with rfl | member
    · exact .of_not_mem (by decide)
    · rw [List.mem_singleton.mp member] at none
      contradiction
  · exact replaced [letter, lineEnd] feed [letter] [Byte.cr] _ rfl rfl (by decide +kernel)
      (.inr rfl) rfl
  · exact (unquote_returns _).2 [letter] [0x61, Byte.quote] rfl
      ⟨by simp [Item.Before, letter], trivial⟩ (by decide)

/-- A carriage return is skipped at the start of a gap and within it, and a letter follows it. -/
theorem not_paired_returned :
    let first : Bytes := Text.utf8 "\"\\\ra\""
    let second : Bytes := Text.utf8 "\"\\\n\ra\""
    unquote first = .ok (Text.utf8 "a", 5) ∧ ¬Paired (first.take 5) ∧
      unquote second = .ok (Text.utf8 "a", 6) ∧ ¬Paired (second.take 6) := by
  intro first second
  have letterBehind : (Text.utf8 "a\"").head? ≠ some Byte.lf := by decide +kernel
  refine ⟨by decide +kernel, fun paired => ?_, by decide +kernel, fun paired => ?_⟩
  · exact letterBehind (paired (Text.utf8 "\"\\") _ (by decide +kernel))
  · exact letterBehind (paired (Text.utf8 "\"\\\n") _ (by decide +kernel))

end Continued

end Literal

end DocPrologue
