import DocPrologue.Proofs.Readers

/-!
Texts without their carriage returns. When every carriage return of a text stands in front of a
line feed, the text and what is left of it without them are read alike: each reader gives the same
value for both and stops at the same spot.
-/

namespace DocPrologue

inductive DropsReturns : Bytes → Bytes → Prop
  | nil : DropsReturns [] []
  | byte {byte : UInt8} {text plain : Bytes} : byte ≠ Byte.cr → DropsReturns text plain →
      DropsReturns (byte :: text) (byte :: plain)
  | lineEnd {text plain : Bytes} : DropsReturns text plain →
      DropsReturns (Byte.cr :: Byte.lf :: text) (Byte.lf :: plain)

def Aligned (text plain rest plainRest : Bytes) : Prop :=
  ∃ used plainUsed, text = used ++ rest ∧ plain = plainUsed ++ plainRest ∧
    DropsReturns used plainUsed ∧ DropsReturns rest plainRest

theorem DropsReturns.append {first plainFirst second plainSecond : Bytes}
    (front : DropsReturns first plainFirst) (back : DropsReturns second plainSecond) :
    DropsReturns (first ++ second) (plainFirst ++ plainSecond) := by
  induction front with
  | nil => exact back
  | byte noReturn _ ih => exact .byte noReturn ih
  | lineEnd _ ih => exact .lineEnd ih

namespace Aligned

variable {text plain rest plainRest : Bytes}

theorem refl (drops : DropsReturns text plain) : Aligned text plain text plain :=
  ⟨[], [], rfl, rfl, .nil, drops⟩

theorem drops (aligned : Aligned text plain rest plainRest) : DropsReturns rest plainRest := by
  obtain ⟨used, plainUsed, -, -, -, behind⟩ := aligned
  exact behind

theorem whole (aligned : Aligned text plain rest plainRest) : DropsReturns text plain := by
  obtain ⟨used, plainUsed, rfl, rfl, front, behind⟩ := aligned
  exact front.append behind

theorem trans {last plainLast : Bytes} (first : Aligned text plain rest plainRest)
    (second : Aligned rest plainRest last plainLast) : Aligned text plain last plainLast := by
  obtain ⟨used, plainUsed, rfl, rfl, front, -⟩ := first
  obtain ⟨more, plainMore, rfl, rfl, next, behind⟩ := second
  exact ⟨used ++ more, plainUsed ++ plainMore, by rw [List.append_assoc],
    by rw [List.append_assoc], front.append next, behind⟩

theorem byte {byte : UInt8} (noReturn : byte ≠ Byte.cr)
    (aligned : Aligned text plain rest plainRest) :
    Aligned (byte :: text) (byte :: plain) rest plainRest :=
  trans ⟨[byte], [byte], rfl, rfl, .byte noReturn .nil, aligned.whole⟩ aligned

theorem lineEnd (aligned : Aligned text plain rest plainRest) :
    Aligned (Byte.cr :: Byte.lf :: text) (Byte.lf :: plain) rest plainRest :=
  trans ⟨[Byte.cr, Byte.lf], [Byte.lf], rfl, rfl, .lineEnd .nil, aligned.whole⟩ aligned

end Aligned

theorem rel_mono {α β : Type} {r s : α → β → Prop} {first : Option α} {second : Option β}
    (weaker : ∀ a b, r a b → s a b) (rel : Option.Rel r first second) :
    Option.Rel s first second := by
  cases rel with
  | some holds => exact .some (weaker _ _ holds)
  | none => exact .none

theorem rel_bind {α β : Type} {r : α → β → Prop} {s : Bytes → Bytes → Prop} {first : Option α}
    {second : Option β} {f : α → Option Bytes} {g : β → Option Bytes}
    (rel : Option.Rel r first second) (next : ∀ a b, r a b → Option.Rel s (f a) (g b)) :
    Option.Rel s (first.bind f) (second.bind g) := by
  cases rel with
  | some holds => exact next _ _ holds
  | none => exact .none

theorem isSome_eq_of_rel {α β : Type} {r : α → β → Prop} {first : Option α} {second : Option β}
    (rel : Option.Rel r first second) : first.isSome = second.isSome := by
  cases rel <;> rfl

namespace DropsReturns

variable {text plain : Bytes}

theorem not_mem (drops : DropsReturns text plain) : Byte.cr ∉ plain := by
  induction drops with
  | nil => simp
  | byte noReturn _ ih => simp [Ne.symm noReturn, ih]
  | lineEnd _ ih => simp [ih, Byte.cr, Byte.lf]

theorem of_not_mem (clean : Byte.cr ∉ text) : DropsReturns text text := by
  induction text with
  | nil => exact .nil
  | cons byte text ih =>
      simp only [List.mem_cons, not_or] at clean
      exact .byte (Ne.symm clean.1) (ih clean.2)

theorem eq_nil_iff (drops : DropsReturns text plain) : text = [] ↔ plain = [] := by
  cases drops <;> simp

theorem head?_eq_some_iff (drops : DropsReturns text plain) (byte : UInt8)
    (noReturn : byte ≠ Byte.cr) (noFeed : byte ≠ Byte.lf) :
    text.head? = some byte ↔ plain.head? = some byte := by
  cases drops with
  | nil => rfl
  | byte _ _ => rfl
  | lineEnd _ => simp [Ne.symm noReturn, Ne.symm noFeed]

theorem dropReturns_eq (drops : DropsReturns text plain) : Bytes.dropReturns text = plain := by
  induction drops with
  | nil => rfl
  | byte noReturn _ ih => rw [Bytes.dropReturns, if_neg fun both => noReturn both.1, ih]
  | lineEnd _ ih =>
      rw [Bytes.dropReturns, if_pos ⟨rfl, rfl⟩, Bytes.dropReturns,
        if_neg fun both => absurd both.1 (by decide), ih]

theorem dropTrailing_cons {byte : UInt8} (noReturn : byte ≠ Byte.cr) (text : Bytes) :
    Bytes.dropTrailing Byte.cr (byte :: text) = byte :: Bytes.dropTrailing Byte.cr text := by
  cases text with
  | nil => simp [Bytes.dropTrailing, noReturn]
  | cons next text =>
      simp only [Bytes.dropTrailing, List.getLast?_cons_cons, List.dropLast_cons_cons]
      split <;> rfl

theorem firstLine (drops : DropsReturns text plain) :
    Bytes.line text = plain.takeWhile (· != Byte.lf) ∧
      DropsReturns (Bytes.wholeLine text) (Bytes.wholeLine plain) ∧
      DropsReturns (Bytes.afterLine text) (Bytes.afterLine plain) := by
  induction drops with
  | nil => exact ⟨rfl, .nil, .nil⟩
  | @byte byte text plain noReturn tail ih =>
      by_cases feed : byte = Byte.lf
      · subst feed
        exact ⟨Bytes.line_feed text, .byte noReturn .nil, by
          rwa [Bytes.afterLine_feed, Bytes.afterLine_feed]⟩
      · obtain ⟨line, whole, after⟩ := ih
        simp only [Bytes.line, Bytes.wholeLine, Bytes.afterLine, Bytes.takeWhile_line_cons feed,
          Bytes.dropWhile_line_cons feed, dropTrailing_cons noReturn]
        exact ⟨congrArg (byte :: ·) line, .byte noReturn whole, after⟩
  | @lineEnd text plain tail ih => exact ⟨rfl, .lineEnd .nil, tail⟩

theorem line_eq (drops : DropsReturns text plain) : Bytes.line text = Bytes.line plain := by
  rw [drops.firstLine.1, (of_not_mem drops.not_mem).firstLine.1]

theorem aligned_afterLine (drops : DropsReturns text plain) :
    Aligned text plain (Bytes.afterLine text) (Bytes.afterLine plain) :=
  ⟨_, _, (Bytes.wholeLine_append_afterLine text).symm,
    (Bytes.wholeLine_append_afterLine plain).symm, drops.firstLine.2.1, drops.firstLine.2.2⟩

theorem aligned_skipGap (drops : DropsReturns text plain) :
    Aligned text plain (text.dropWhile Byte.isGap) (plain.dropWhile Byte.isGap) := by
  induction drops with
  | nil => exact .refl .nil
  | @byte byte text plain noReturn tail ih =>
      by_cases gap : Byte.isGap byte = true
      · rw [List.dropWhile_cons_of_pos gap, List.dropWhile_cons_of_pos gap]
        exact ih.byte noReturn
      · rw [List.dropWhile_cons_of_neg gap, List.dropWhile_cons_of_neg gap]
        exact .refl (.byte noReturn tail)
  | lineEnd _ ih => exact ih.lineEnd

theorem span (drops : DropsReturns text plain) {p : UInt8 → Bool} (noReturn : p Byte.cr = false)
    (noFeed : p Byte.lf = false) :
    text.takeWhile p = plain.takeWhile p ∧
      Aligned text plain (text.dropWhile p) (plain.dropWhile p) := by
  induction drops with
  | nil => exact ⟨rfl, .refl .nil⟩
  | @byte byte text plain isByte tail ih =>
      by_cases holds : p byte = true
      · rw [List.takeWhile_cons_of_pos holds, List.takeWhile_cons_of_pos holds,
          List.dropWhile_cons_of_pos holds, List.dropWhile_cons_of_pos holds]
        exact ⟨congrArg (byte :: ·) ih.1, ih.2.byte isByte⟩
      · rw [List.takeWhile_cons_of_neg holds, List.takeWhile_cons_of_neg holds,
          List.dropWhile_cons_of_neg holds, List.dropWhile_cons_of_neg holds]
        exact ⟨rfl, .refl (.byte isByte tail)⟩
  | @lineEnd text plain tail ih =>
      simp only [List.takeWhile_cons, List.dropWhile_cons, noReturn, noFeed]
      exact ⟨rfl, .refl (.lineEnd tail)⟩

theorem rel_after? (drops : DropsReturns text plain) (mark : Bytes) (noReturn : Byte.cr ∉ mark)
    (noFeed : Byte.lf ∉ mark) :
    Option.Rel (Aligned text plain) (Bytes.after? mark text) (Bytes.after? mark plain) := by
  induction mark generalizing text plain with
  | nil => exact .some (.refl drops)
  | cons expected mark ih =>
      simp only [List.mem_cons, not_or] at noReturn noFeed
      cases drops with
      | nil => exact .none
      | @byte byte text plain isByte tail =>
          by_cases same : byte = expected
          · simp only [Bytes.after?, if_pos same]
            exact rel_mono (fun _ _ aligned => aligned.byte isByte) (ih tail noReturn.2 noFeed.2)
          · simp only [Bytes.after?, if_neg same]
            exact .none
      | @lineEnd text plain tail =>
          simp only [Bytes.after?, if_neg noReturn.1, if_neg noFeed.1]
          exact .none

theorem startsWith_eq (drops : DropsReturns text plain) (mark : Bytes) (noReturn : Byte.cr ∉ mark)
    (noFeed : Byte.lf ∉ mark) : Bytes.startsWith mark text = Bytes.startsWith mark plain :=
  isSome_eq_of_rel (drops.rel_after? mark noReturn noFeed)

theorem head?_any_eq (drops : DropsReturns text plain) {p : UInt8 → Bool}
    (noReturn : p Byte.cr = false) (noFeed : p Byte.lf = false) :
    text.head?.any p = plain.head?.any p := by
  cases drops with
  | nil => rfl
  | byte _ _ => rfl
  | lineEnd _ => simp [noReturn, noFeed]

theorem rel_afterToken? (drops : DropsReturns text plain) {byte : UInt8}
    (token : Byte.isGap byte = false) :
    Option.Rel (Aligned text plain) (Attribute.afterToken? byte text)
      (Attribute.afterToken? byte plain) := by
  have aligned := drops.aligned_skipGap
  unfold Attribute.afterToken? Attribute.skipGap
  generalize text.dropWhile Byte.isGap = rest at aligned ⊢
  generalize plain.dropWhile Byte.isGap = plainRest at aligned ⊢
  cases aligned.drops with
  | nil => exact .none
  | @byte first others plainOthers isByte tail =>
      by_cases same : first = byte
      · simp only [if_pos same]
        exact .some (aligned.trans (.byte isByte (.refl tail)))
      · simp only [if_neg same]
        exact .none
  | lineEnd tail =>
      have noReturn : Byte.cr ≠ byte := by
        rintro rfl
        exact absurd token (by decide)
      have noFeed : Byte.lf ≠ byte := by
        rintro rfl
        exact absurd token (by decide)
      simp only [if_neg noReturn, if_neg noFeed]
      exact .none

theorem rel_body? (drops : DropsReturns text plain) :
    Option.Rel (Aligned text plain) (Attribute.body? text) (Attribute.body? plain) := by
  refine rel_bind (drops.rel_after? _ (by decide) (by decide)) ?_
  intro rest plainRest aligned
  exact rel_mono (fun _ _ => aligned.trans) (aligned.drops.rel_afterToken? (by decide))

theorem isStart_eq (drops : DropsReturns text plain) :
    Literal.isStart text = Literal.isStart plain := by
  cases drops with
  | nil => rfl
  | @byte byte text plain isByte tail =>
      have hashes := (tail.span (p := (· == Byte.hash)) (by decide) (by decide)).2.drops
      have quote := hashes.head?_eq_some_iff Byte.quote (by decide) (by decide)
      rw [Bool.eq_iff_iff]
      simp only [Literal.isStart, Bool.or_eq_true, Bool.and_eq_true, beq_iff_eq,
        quote]
  | lineEnd tail => rfl

theorem rel_literal? (drops : DropsReturns text plain) :
    Option.Rel (Aligned text plain) (Attribute.literal? text) (Attribute.literal? plain) := by
  have first := drops.aligned_skipGap
  refine rel_bind (first.drops.rel_after? _ (by decide) (by decide)) ?_
  intro named plainNamed second
  have word := second.drops.head?_any_eq (p := Byte.isWord) (by decide) (by decide)
  simp only [word]
  split
  · exact .none
  · refine rel_bind (second.drops.rel_afterToken? (by decide)) ?_
    intro rest plainRest third
    have fourth := third.drops.aligned_skipGap
    have start : Literal.isStart (Attribute.skipGap rest) =
        Literal.isStart (Attribute.skipGap plainRest) := fourth.drops.isStart_eq
    simp only [start]
    split
    · exact .some (((first.trans second).trans third).trans fourth)
    · exact .none

end DropsReturns

namespace Literal

def Fault.isBadHex : Fault → Bool
  | .incompleteHex | .invalidHex => true
  | _ => false

/-- The same fault, except that line ends may cut a hexadecimal escape in another place. -/
def Fault.Similar (first second : Fault) : Prop :=
  first = second ∨ first.isBadHex = true ∧ second.isBadHex = true

theorem Fault.Similar.unterminated_iff {first second : Fault} (similar : Similar first second) :
    first = .unterminated ↔ second = .unterminated := by
  rcases similar with rfl | ⟨bad, alsoBad⟩
  · rfl
  · constructor
    · rintro rfl
      contradiction
    · rintro rfl
      contradiction

end Literal

inductive ReadAlike {ε : Type} (alike : ε → ε → Prop) (text plain : Bytes) :
    Except ε (Bytes × Bytes) → Except ε (Bytes × Bytes) → Prop
  | ok (value : Bytes) {rest plainRest : Bytes} : Aligned text plain rest plainRest →
      ReadAlike alike text plain (.ok (value, rest)) (.ok (value, plainRest))
  | error {fault plainFault : ε} : alike fault plainFault →
      ReadAlike alike text plain (.error fault) (.error plainFault)

namespace ReadAlike

theorem byte {ε : Type} {alike : ε → ε → Prop} {text plain : Bytes} {byte : UInt8}
    {first second : Except ε (Bytes × Bytes)} (noReturn : byte ≠ Byte.cr)
    (same : ReadAlike alike text plain first second) :
    ReadAlike alike (byte :: text) (byte :: plain) first second := by
  cases same with
  | ok value aligned => exact .ok value (aligned.byte noReturn)
  | error fault => exact .error fault

end ReadAlike

namespace DropsReturns

open Literal (Fault)

variable {text plain : Bytes}

theorem hexEscape (drops : DropsReturns text plain) :
    ReadAlike Fault.Similar text plain (Literal.hexEscape text) (Literal.hexEscape plain) := by
  have noDigit : Byte.hexValue? Byte.cr = none ∧ Byte.hexValue? Byte.lf = none := by decide
  cases drops with
  | nil => exact .error (.inl rfl)
  | @byte high text plain isByte tail =>
      cases tail with
      | nil => exact .error (.inl rfl)
      | @byte low text plain alsoByte tail =>
          unfold Literal.hexEscape
          simp only
          cases Byte.hexValue? high with
          | none => exact .error (.inl rfl)
          | some highValue =>
              cases Byte.hexValue? low with
              | none => exact .error (.inl rfl)
              | some lowValue =>
                  simp only
                  split
                  · exact .ok _ (.byte isByte (.byte alsoByte (.refl tail)))
                  · exact .error (.inl rfl)
      | lineEnd tail =>
          unfold Literal.hexEscape
          simp only [noDigit.1, noDigit.2]
          cases Byte.hexValue? high with
          | none => exact .error (.inl rfl)
          | some highValue => exact .error (.inl rfl)
  | @lineEnd text plain tail =>
      cases plain with
      | nil =>
          simp only [Literal.hexEscape, noDigit.1]
          exact .error (.inr ⟨rfl, rfl⟩)
      | cons second plain =>
          simp only [Literal.hexEscape, noDigit.1, noDigit.2]
          exact .error (.inl rfl)

theorem unicodeDigits (drops : DropsReturns text plain) (digits number : Nat) :
    ReadAlike Fault.Similar text plain (Literal.unicodeDigits digits number text)
      (Literal.unicodeDigits digits number plain) := by
  induction drops generalizing digits number with
  | nil => exact .error (.inl rfl)
  | @byte byte text plain isByte tail ih =>
      rw [Literal.unicodeDigits, Literal.unicodeDigits]
      split
      · split
        · exact .error (.inl rfl)
        · split
          · exact .ok _ (.byte isByte (.refl tail))
          · exact .error (.inl rfl)
      · split
        · exact (ih digits number).byte isByte
        · cases Byte.hexValue? byte with
          | none => exact .error (.inl rfl)
          | some digit =>
              simp only
              split
              · exact .error (.inl rfl)
              · exact (ih (digits + 1) (number * 16 + digit)).byte isByte
  | lineEnd tail _ =>
      have bad {byte : UInt8} (noBrace : byte ≠ Byte.closeBrace)
          (noUnderscore : byte ≠ Byte.underscore) (noDigit : Byte.hexValue? byte = none)
          (rest : Bytes) :
          Literal.unicodeDigits digits number (byte :: rest) = .error .invalidUnicodeDigit := by
        rw [Literal.unicodeDigits, if_neg noBrace, if_neg fun both => noUnderscore both.1, noDigit]
      rw [bad (by decide) (by decide) (by decide), bad (by decide) (by decide) (by decide)]
      exact .error (.inl rfl)

theorem unicodeEscape (drops : DropsReturns text plain) :
    ReadAlike Fault.Similar text plain (Literal.unicodeEscape text)
      (Literal.unicodeEscape plain) := by
  cases drops with
  | nil => exact .error (.inl rfl)
  | @byte byte text plain isByte tail =>
      rw [Literal.unicodeEscape, Literal.unicodeEscape]
      split
      · exact (tail.unicodeDigits 0 0).byte isByte
      · exact .error (.inl rfl)
  | lineEnd tail => exact .error (.inl rfl)

theorem escape (drops : DropsReturns text plain) :
    ReadAlike Fault.Similar text plain (Literal.escape text) (Literal.escape plain) := by
  cases drops with
  | nil => exact .error (.inl rfl)
  | @byte byte text plain isByte tail =>
      rw [Literal.escape, Literal.escape]
      cases Literal.simpleEscape? byte with
      | some value => exact .ok _ (.byte isByte (.refl tail))
      | none =>
          simp only
          split
          · exact tail.hexEscape.byte isByte
          · split
            · exact tail.unicodeEscape.byte isByte
            · split
              · exact .ok _ (tail.aligned_skipGap.byte isByte)
              · exact .error (.inl rfl)
  | @lineEnd text plain tail => exact .ok [] tail.aligned_skipGap.lineEnd

end DropsReturns

def FoundAlike (needle text plain : Bytes) (passed plainPassed place plainPlace : Nat) : Prop :=
  ∃ before after plainBefore plainAfter,
    text = before ++ (needle ++ after) ∧ plain = plainBefore ++ (needle ++ plainAfter) ∧
      place = passed + before.length ∧ plainPlace = plainPassed + plainBefore.length ∧
      DropsReturns before plainBefore ∧ DropsReturns after plainAfter

namespace FoundAlike

variable {needle text plain : Bytes} {passed plainPassed place plainPlace : Nat}

theorem here (drops : DropsReturns text plain) :
    FoundAlike needle (needle ++ text) (needle ++ plain) passed plainPassed passed plainPassed :=
  ⟨[], text, [], plain, rfl, rfl, rfl, rfl, .nil, drops⟩

theorem byte {byte : UInt8} (noReturn : byte ≠ Byte.cr)
    (found : FoundAlike needle text plain (passed + 1) (plainPassed + 1) place plainPlace) :
    FoundAlike needle (byte :: text) (byte :: plain) passed plainPassed place plainPlace := by
  obtain ⟨before, after, plainBefore, plainAfter, rfl, rfl, rfl, rfl, front, behind⟩ := found
  refine ⟨byte :: before, after, byte :: plainBefore, plainAfter, rfl, rfl, ?_, ?_,
    .byte noReturn front, behind⟩
  · rw [List.length_cons]
    omega
  · rw [List.length_cons]
    omega

theorem lineEnd
    (found : FoundAlike needle text plain (passed + 2) (plainPassed + 1) place plainPlace) :
    FoundAlike needle (Byte.cr :: Byte.lf :: text) (Byte.lf :: plain) passed plainPassed place
      plainPlace := by
  obtain ⟨before, after, plainBefore, plainAfter, rfl, rfl, rfl, rfl, front, behind⟩ := found
  refine ⟨Byte.cr :: Byte.lf :: before, after, Byte.lf :: plainBefore, plainAfter, rfl, rfl, ?_,
    ?_, .lineEnd front, behind⟩
  · rw [List.length_cons, List.length_cons]
    omega
  · rw [List.length_cons]
    omega

end FoundAlike

namespace DropsReturns

variable {text plain : Bytes}

theorem not_mem_closing (count : Nat) {byte : UInt8} (noQuote : byte ≠ Byte.quote)
    (noHash : byte ≠ Byte.hash) : byte ∉ Literal.closing count := by
  intro member
  rcases List.mem_cons.mp member with same | inside
  · exact noQuote same
  · exact noHash (List.mem_replicate.mp inside).2

theorem rel_closing (drops : DropsReturns text plain) (count passed plainPassed : Nat) :
    Option.Rel (FoundAlike (Literal.closing count) text plain passed plainPassed)
      (Bytes.findFrom (Literal.closing count) passed text)
      (Bytes.findFrom (Literal.closing count) plainPassed plain) := by
  have noReturn : Byte.cr ∉ Literal.closing count := not_mem_closing count (by decide) (by decide)
  have noFeed : Byte.lf ∉ Literal.closing count := not_mem_closing count (by decide) (by decide)
  induction drops generalizing passed plainPassed with
  | nil => exact .none
  | @byte byte text plain isByte tail ih =>
      have marked := (DropsReturns.byte isByte tail).rel_after? _ noReturn noFeed
      rw [Bytes.findFrom, Bytes.findFrom, Bytes.startsWith, Bytes.startsWith]
      cases found : Bytes.after? (Literal.closing count) (byte :: text) <;>
        cases plainFound : Bytes.after? (Literal.closing count) (byte :: plain) <;>
        rw [found, plainFound] at marked
      · exact rel_mono (fun _ _ => FoundAlike.byte isByte) (ih (passed + 1) (plainPassed + 1))
      · cases marked
      · cases marked
      · rename_i after plainAfter
        cases marked with
        | some aligned =>
            rw [Bytes.after?_eq_some_iff.mp found, Bytes.after?_eq_some_iff.mp plainFound]
            exact .some (.here aligned.drops)
  | @lineEnd text plain tail ih =>
      have absent {byte : UInt8} (noQuote : byte ≠ Byte.quote) (rest : Bytes) :
          Bytes.startsWith (Literal.closing count) (byte :: rest) = false := by
        simp [Bytes.startsWith, Bytes.after?, Literal.closing, noQuote]
      rw [Bytes.findFrom, absent (by decide), if_neg (by decide), Bytes.findFrom,
        absent (by decide), if_neg (by decide), Bytes.findFrom, absent (by decide),
        if_neg (by decide)]
      exact rel_mono (fun _ _ => FoundAlike.lineEnd) (ih (passed + 2) (plainPassed + 1))

theorem rel_closeFrom (drops : DropsReturns text plain) (inner passed plainPassed : Nat) :
    Option.Rel (FoundAlike [Byte.star, Byte.slash] text plain passed plainPassed)
      (Comment.closeFrom inner passed text) (Comment.closeFrom inner plainPassed plain) := by
  -- Two bytes are read at a time, so the induction is on the length.
  generalize size : text.length = length
  induction length using Nat.strongRecOn generalizing text plain inner passed plainPassed with
  | ind length ih =>
      subst size
      have later {rest plainRest : Bytes} (behind : DropsReturns rest plainRest)
          (shorter : rest.length < text.length) (inner passed plainPassed : Nat) :=
        ih rest.length shorter behind inner passed plainPassed rfl
      cases drops with
      | nil => exact .none
      | @lineEnd text plain tail =>
          rw [Comment.closeFrom_neutral (by decide) (by decide),
            Comment.closeFrom_neutral (by decide) (by decide),
            Comment.closeFrom_neutral (by decide) (by decide)]
          exact rel_mono (fun _ _ => FoundAlike.lineEnd)
            (later tail (by simp only [List.length_cons]; omega) inner (passed + 2)
              (plainPassed + 1))
      | @byte first text plain isByte tail =>
          have single := rel_mono (fun _ _ => FoundAlike.byte isByte)
            (later tail (by simp) inner (passed + 1) (plainPassed + 1))
          cases tail with
          | nil => exact .none
          | @lineEnd text plain tail =>
              rw [Comment.closeFrom_byte inner passed (Byte.lf :: text)
                  (fun both => absurd both.2 (by decide)) fun both => absurd both.2 (by decide),
                Comment.closeFrom_byte inner plainPassed plain
                  (fun both => absurd both.2 (by decide)) fun both => absurd both.2 (by decide)]
              exact single
          | @byte second text plain alsoByte tail =>
              have double (inner : Nat) := rel_mono
                (fun _ _ found => FoundAlike.byte isByte (FoundAlike.byte alsoByte found))
                (later tail (by simp only [List.length_cons]; omega) inner (passed + 2)
                  (plainPassed + 2))
              by_cases opens : first = Byte.slash ∧ second = Byte.star
              · obtain ⟨rfl, rfl⟩ := opens
                rw [Comment.closeFrom_open, Comment.closeFrom_open]
                exact double (inner + 1)
              · by_cases closes : first = Byte.star ∧ second = Byte.slash
                · obtain ⟨rfl, rfl⟩ := closes
                  cases inner with
                  | zero =>
                      rw [Comment.closeFrom_close, Comment.closeFrom_close]
                      exact .some (.here tail)
                  | succ outer =>
                      rw [Comment.closeFrom_close_inner, Comment.closeFrom_close_inner]
                      exact double outer
                · rw [Comment.closeFrom_byte _ _ _ opens closes,
                    Comment.closeFrom_byte _ _ _ opens closes]
                  exact single

theorem map_split (drops : DropsReturns text plain) :
    (Bytes.split Byte.lf text).map (Bytes.dropTrailing Byte.cr) = Bytes.split Byte.lf plain := by
  induction drops with
  | nil => rfl
  | @byte byte text plain isByte tail ih =>
      unfold Bytes.split at ih ⊢
      rw [List.foldr_cons, List.foldr_cons]
      by_cases feed : byte = Byte.lf
      · rw [if_pos feed, if_pos feed, List.map_cons, ih]
        rfl
      · rw [if_neg feed, if_neg feed, ← ih]
        generalize text.foldr _ [[]] = parts
        cases parts with
        | nil => simp [Bytes.extendFirst, Bytes.dropTrailing, isByte]
        | cons part parts =>
            simp only [Bytes.extendFirst, List.map_cons, dropTrailing_cons isByte]
  | @lineEnd text plain tail ih =>
      have first : Bytes.split Byte.lf (Byte.cr :: Byte.lf :: text) =
          [Byte.cr] :: Bytes.split Byte.lf text := Bytes.split_append [Byte.cr] text (by decide)
      have second : Bytes.split Byte.lf (Byte.lf :: plain) = [] :: Bytes.split Byte.lf plain :=
        Bytes.split_append [] plain (by decide)
      rw [first, second, List.map_cons, ih]
      rfl

theorem blockLines_eq (drops : DropsReturns text plain) :
    Comment.blockLines text = Comment.blockLines plain := by
  unfold Comment.blockLines
  rw [drops.map_split, (of_not_mem drops.not_mem).map_split]

end DropsReturns

def FaultAlike {ε : Type} (alike : ε → ε → Prop) (text plain : Bytes) (first second : ε × Bytes) :
    Prop :=
  alike first.1 second.1 ∧ Aligned text plain first.2 second.2

namespace Aligned

variable {whole wholePlain text plain : Bytes}

theorem readEscape (aligned : Aligned whole wholePlain (Byte.backslash :: text)
      (Byte.backslash :: plain)) (tail : DropsReturns text plain) (seen : Bytes)
    (later : ∀ piece rest plainRest, Literal.escape text = .ok (piece, rest) →
      Aligned text plain rest plainRest →
      ReadAlike (FaultAlike Literal.Fault.Similar whole wholePlain) whole wholePlain
        (Literal.plain whole (piece.reverse ++ seen) rest)
        (Literal.plain wholePlain (piece.reverse ++ seen) plainRest)) :
    ReadAlike (FaultAlike Literal.Fault.Similar whole wholePlain) whole wholePlain
      (Literal.plain whole seen (Byte.backslash :: text))
      (Literal.plain wholePlain seen (Byte.backslash :: plain)) := by
  have start := Aligned.refl aligned.whole
  have escapes := tail.escape
  cases escaped : Literal.escape text <;> cases plainEscaped : Literal.escape plain <;>
    rw [escaped, plainEscaped] at escapes
  · cases escapes with
    | error similar =>
        rename_i fault plainFault
        by_cases ended : fault = .unterminated
        · have plainEnded := similar.unterminated_iff.mp ended
          subst ended plainEnded
          rw [Literal.plain_escape_unterminated _ _ escaped,
            Literal.plain_escape_unterminated _ _ plainEscaped]
          exact .error ⟨.inl rfl, start⟩
        · have plainHere := fun same => ended (similar.unterminated_iff.mpr same)
          rw [Literal.plain_escape_fault _ _ escaped ended,
            Literal.plain_escape_fault _ _ plainEscaped plainHere]
          exact .error ⟨similar, aligned⟩
  · cases escapes
  · cases escapes
  · cases escapes with
    | ok piece next =>
        rw [Literal.plain_escape _ _ escaped, Literal.plain_escape _ _ plainEscaped]
        exact later piece _ _ escaped next

theorem readPlain (aligned : Aligned whole wholePlain text plain) (seen : Bytes) :
    ReadAlike (FaultAlike Literal.Fault.Similar whole wholePlain) whole wholePlain
      (Literal.plain whole seen text) (Literal.plain wholePlain seen plain) := by
  -- An escape takes several bytes, so the induction is on the length.
  generalize size : text.length = length
  induction length using Nat.strongRecOn generalizing text plain seen with
  | ind length ih =>
      subst size
      have later {rest plainRest : Bytes} (next : Aligned text plain rest plainRest)
          (shorter : rest.length < text.length) (seen : Bytes) :=
        ih rest.length shorter (aligned.trans next) seen rfl
      have start := Aligned.refl aligned.whole
      cases aligned.drops with
      | nil =>
          rw [Literal.plain, Literal.plain]
          exact .error ⟨.inl rfl, start⟩
      | @lineEnd text plain tail =>
          rw [Literal.plain_return _ _ rfl,
            Literal.plain_byte _ _ (by decide) (by decide) (by decide),
            Literal.plain_byte _ _ (by decide) (by decide) (by decide)]
          exact later (.lineEnd (.refl tail)) (by simp only [List.length_cons]; omega)
            (Byte.lf :: seen)
      | @byte byte text plain isByte tail =>
          by_cases quote : byte = Byte.quote
          · subst quote
            rw [Literal.plain_quote, Literal.plain_quote]
            exact .ok _ (aligned.trans (.byte isByte (.refl tail)))
          · by_cases backslash : byte = Byte.backslash
            · subst backslash
              refine aligned.readEscape tail seen ?_
              intro piece rest plainRest escaped next
              have shorter := Literal.escape_length escaped
              exact later (next.byte isByte) (by simp only [List.length_cons]; omega) _
            · rw [Literal.plain_byte _ _ quote isByte backslash,
                Literal.plain_byte _ _ quote isByte backslash]
              exact later (.byte isByte (.refl tail)) (by simp) (byte :: seen)

theorem readRaw (aligned : Aligned whole wholePlain text plain) :
    ReadAlike (FaultAlike Literal.Fault.Similar whole wholePlain) whole wholePlain
      (Literal.raw whole text) (Literal.raw wholePlain plain) := by
  have start := Aligned.refl aligned.whole
  obtain ⟨hashes, marked⟩ := aligned.drops.span (p := (· == Byte.hash)) (by decide) (by decide)
  unfold Literal.raw
  rw [hashes]
  generalize (plain.takeWhile (· == Byte.hash)).length = count
  generalize text.dropWhile (· == Byte.hash) = rest at marked ⊢
  generalize plain.dropWhile (· == Byte.hash) = plainRest at marked ⊢
  have behind := marked.drops
  cases behind with
  | nil => exact .error ⟨.inl rfl, start⟩
  | lineEnd tail => exact .error ⟨.inl rfl, start⟩
  | @byte byte body plainBody isByte tail =>
      simp only
      by_cases quote : byte = Byte.quote
      · rw [if_pos quote, if_pos quote]
        have noReturn : Byte.cr ∉ Literal.closing count :=
          DropsReturns.not_mem_closing count (by decide) (by decide)
        have finds := tail.rel_closing count 0 0
        unfold Bytes.find?
        cases found : Bytes.findFrom (Literal.closing count) 0 body <;>
          cases plainFound : Bytes.findFrom (Literal.closing count) 0 plainBody <;>
          rw [found, plainFound] at finds
        · exact .error ⟨.inl rfl, start⟩
        · cases finds
        · cases finds
        · cases finds with
          | some alike =>
              obtain ⟨content, after, plainContent, plainAfter, rfl, rfl, rfl, rfl, inside,
                outside⟩ := alike
              simp only [Nat.zero_add, Literal.drop_closing, List.take_left]
              rw [inside.dropReturns_eq, (DropsReturns.of_not_mem inside.not_mem).dropReturns_eq]
              refine .ok _ ((aligned.trans marked).trans (.byte isByte ?_))
              exact ⟨content ++ Literal.closing count, plainContent ++ Literal.closing count,
                (List.append_assoc ..).symm, (List.append_assoc ..).symm,
                inside.append (.of_not_mem noReturn), outside⟩
      · rw [if_neg quote, if_neg quote]
        exact .error ⟨.inl rfl, start⟩

end Aligned

inductive Attribute.Fault.Similar : Fault → Fault → Prop
  | same (fault : Fault) : Similar fault fault
  | literal {first second : Literal.Fault} : Literal.Fault.Similar first second →
      Similar (.literal first) (.literal second)

namespace DropsReturns

variable {text plain : Bytes}

theorem readLiteral (drops : DropsReturns text plain) :
    ReadAlike (FaultAlike Literal.Fault.Similar text plain) text plain (Literal.read text)
      (Literal.read plain) := by
  cases drops with
  | nil => exact .error ⟨.inl rfl, .refl .nil⟩
  | lineEnd tail => exact .error ⟨.inl rfl, .refl (.lineEnd tail)⟩
  | @byte byte text plain isByte tail =>
      have start : Aligned (byte :: text) (byte :: plain) (byte :: text) (byte :: plain) :=
        .refl (.byte isByte tail)
      have behind : Aligned (byte :: text) (byte :: plain) text plain := .byte isByte (.refl tail)
      unfold Literal.read
      simp only
      split
      · exact behind.readRaw
      · split
        · exact behind.readPlain []
        · exact .error ⟨.inl rfl, start⟩

theorem closeAttribute (drops : DropsReturns text plain) (isRaw : Bool) :
    (∃ rest plainRest, Attribute.close isRaw text = .ok rest ∧
      Attribute.close isRaw plain = .ok plainRest ∧ Aligned text plain rest plainRest) ∨
    ∃ fault spot plainSpot, Attribute.close isRaw text = .error (fault, spot) ∧
      Attribute.close isRaw plain = .error (fault, plainSpot) ∧
      Aligned text plain spot plainSpot := by
  have aligned := drops.aligned_skipGap
  unfold Attribute.close Attribute.skipGap
  generalize text.dropWhile Byte.isGap = rest at aligned ⊢
  generalize plain.dropWhile Byte.isGap = plainRest at aligned ⊢
  have behind := aligned.drops
  cases behind with
  | nil => exact .inr ⟨_, _, _, rfl, rfl, aligned⟩
  | lineEnd tail => exact .inr ⟨_, _, _, rfl, rfl, aligned⟩
  | @byte byte rest plainRest isByte tail =>
      simp only
      split
      · exact .inl ⟨_, _, rfl, rfl, aligned.trans (.byte isByte (.refl tail))⟩
      · split
        · exact .inr ⟨_, _, _, rfl, rfl, aligned⟩
        · exact .inr ⟨_, _, _, rfl, rfl, aligned⟩

theorem readAttribute (drops : DropsReturns text plain) :
    ReadAlike (FaultAlike Attribute.Fault.Similar text plain) text plain (Attribute.read text)
      (Attribute.read plain) := by
  have isRaw : (text.head? == some Literal.rawMark) = (plain.head? == some Literal.rawMark) := by
    rw [Bool.eq_iff_iff, beq_iff_eq, beq_iff_eq]
    exact drops.head?_eq_some_iff Literal.rawMark (by decide) (by decide)
  have literal := drops.readLiteral
  unfold Attribute.read
  rw [isRaw]
  generalize Literal.read text = first at literal ⊢
  generalize Literal.read plain = second at literal ⊢
  cases literal with
  | error faults => exact .error ⟨.literal faults.1, faults.2⟩
  | ok value aligned =>
      rcases aligned.drops.closeAttribute (plain.head? == some Literal.rawMark) with
        ⟨after, plainAfter, closed, plainClosed, next⟩ |
        ⟨fault, spot, plainSpot, failed, plainFailed, next⟩
      · simp only [closed, plainClosed]
        exact .ok value (aligned.trans next)
      · simp only [failed, plainFailed]
        exact .error ⟨.same fault, aligned.trans next⟩

end DropsReturns

end DocPrologue
