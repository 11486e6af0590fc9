import DocPrologue.Proofs.Lines

/-!
What readers read. A reader that succeeds splits its text into the part it used and the part that
follows, and it reads the used part in the same way in front of any other text. The statements here
give that split for literals, attributes and block comments. A reader that fails names a spot in its
text.
-/

namespace DocPrologue

/-- The reader gives `value` for `used` and leaves whatever follows unread. -/
def Reads {ε : Type} (reader : Bytes → Except ε (Bytes × Bytes)) (used value : Bytes) : Prop :=
  ∀ tail, reader (used ++ tail) = .ok (value, tail)

namespace Bytes

theorem findFrom_append (needle : Bytes) (passed : Nat) (after : Bytes) :
    findFrom needle passed (needle ++ after) = some passed := by
  have here : startsWith needle (needle ++ after) = true := startsWith_iff.mpr ⟨after, rfl⟩
  cases whole : needle ++ after with
  | nil => simp [findFrom, (List.append_eq_nil_iff.mp whole).1]
  | cons first others => rw [findFrom, ← whole, if_pos here]

theorem findFrom_split {needle text : Bytes} {passed place : Nat}
    (found : findFrom needle passed text = some place) :
    ∃ before after, text = before ++ (needle ++ after) ∧ place = passed + before.length ∧
      ∀ tail, findFrom needle passed (before ++ (needle ++ tail)) = some place := by
  induction text generalizing passed with
  | nil =>
      obtain ⟨empty, same⟩ : needle = [] ∧ passed = place := by simpa [findFrom] using found
      subst empty
      refine ⟨[], [], rfl, by simp [same], fun tail => ?_⟩
      rw [List.nil_append, findFrom_append, same]
  | cons byte rest ih =>
      rw [findFrom] at found
      split at found
      · rename_i here
        obtain ⟨after, shape⟩ := startsWith_iff.mp here
        simp only [Option.some.injEq] at found
        refine ⟨[], after, shape, by simp [found], fun tail => ?_⟩
        rw [List.nil_append, findFrom_append, found]
      · rename_i absent
        obtain ⟨before, after, rfl, placed, same⟩ := ih found
        refine ⟨byte :: before, after, rfl, by simp [placed]; omega, ?_⟩
        intro tail
        rw [List.cons_append, findFrom, if_neg, same]
        intro earlier
        apply absent
        -- An occurrence that starts earlier ends before `tail` begins.
        obtain ⟨others, shape⟩ := startsWith_iff.mp earlier
        have front : needle <+: byte :: (before ++ needle) := by
          apply List.prefix_of_prefix_length_le ⟨others, shape.symm⟩
          · exact ⟨tail, by simp⟩
          · simp only [List.length_cons, List.length_append]
            omega
        obtain ⟨between, shape⟩ := front
        refine startsWith_iff.mpr ⟨between ++ after, ?_⟩
        rw [← List.append_assoc needle, shape, List.cons_append, List.append_assoc]

theorem findFrom_le {needle before after : Bytes} {passed place : Nat}
    (found : findFrom needle passed (before ++ (needle ++ after)) = some place) :
    place ≤ passed + before.length := by
  induction before generalizing passed with
  | nil =>
      rw [List.nil_append, findFrom_append] at found
      rw [← Option.some.inj found]
      exact Nat.le_add_right passed 0
  | cons byte before ih =>
      rw [List.cons_append, findFrom] at found
      rw [List.length_cons]
      split at found
      · rw [← Option.some.inj found]
        omega
      · have later := ih found
        omega

end Bytes

namespace Literal

theorem hexEscape_reads {text value rest : Bytes} (done : hexEscape text = .ok (value, rest)) :
    ∃ used, text = used ++ rest ∧ Reads hexEscape used value := by
  unfold hexEscape at done
  split at done
  · rename_i high low after
    split at done
    · rename_i highValue lowValue isHigh isLow
      split at done
      · rename_i small
        simp only [Except.ok.injEq, Prod.mk.injEq] at done
        obtain ⟨rfl, rfl⟩ := done
        refine ⟨[high, low], rfl, ?_⟩
        intro tail
        simp [hexEscape, isHigh, isLow, small]
      · contradiction
    · contradiction
  · contradiction

theorem unicodeDigits_reads {digits number : Nat} {text value rest : Bytes}
    (done : unicodeDigits digits number text = .ok (value, rest)) :
    ∃ used, text = used ++ rest ∧ Reads (unicodeDigits digits number) used value := by
  induction text generalizing digits number with
  | nil => simp [unicodeDigits] at done
  | cons byte text ih =>
      rw [unicodeDigits] at done
      by_cases brace : byte = Byte.closeBrace
      · rw [if_pos brace] at done
        split at done
        · contradiction
        · rename_i some
          split at done
          · rename_i scalar
            simp only [Except.ok.injEq, Prod.mk.injEq] at done
            obtain ⟨rfl, rfl⟩ := done
            refine ⟨[byte], rfl, ?_⟩
            intro tail
            simp [unicodeDigits, brace, some, scalar]
          · contradiction
      · rw [if_neg brace] at done
        split at done
        · rename_i underscore
          obtain ⟨used, rfl, reads⟩ := ih done
          refine ⟨byte :: used, rfl, ?_⟩
          intro tail
          rw [List.cons_append, unicodeDigits, if_neg brace, if_pos underscore]
          exact reads tail
        · rename_i noUnderscore
          split at done
          · contradiction
          · rename_i digit isDigit
            split at done
            · contradiction
            · rename_i few
              obtain ⟨used, rfl, reads⟩ := ih done
              refine ⟨byte :: used, rfl, ?_⟩
              intro tail
              rw [List.cons_append, unicodeDigits, if_neg brace, if_neg noUnderscore, isDigit]
              simp only [if_neg few]
              exact reads tail

theorem unicodeEscape_reads {text value rest : Bytes}
    (done : unicodeEscape text = .ok (value, rest)) :
    ∃ used, text = used ++ rest ∧ Reads unicodeEscape used value := by
  unfold unicodeEscape at done
  split at done
  · rename_i byte after
    split at done
    · rename_i brace
      obtain ⟨used, rfl, reads⟩ := unicodeDigits_reads done
      refine ⟨byte :: used, rfl, ?_⟩
      intro tail
      rw [List.cons_append, unicodeEscape, if_pos brace]
      exact reads tail
    · contradiction
  · contradiction

/-- A line continuation ends at the first byte that is no gap, so an escape sees one byte of what
follows it. -/
theorem escape_split {text value rest : Bytes} (done : escape text = .ok (value, rest)) :
    ∃ used, text = used ++ rest ∧
      ∀ next : Bytes, next.head? = rest.head? → escape (used ++ next) = .ok (value, next) := by
  cases text with
  | nil => simp [escape] at done
  | cons byte text =>
      rw [escape] at done
      split at done
      · rename_i simple isSimple
        simp only [Except.ok.injEq, Prod.mk.injEq] at done
        obtain ⟨rfl, rfl⟩ := done
        exact ⟨[byte], rfl, fun next _ => by simp [escape, isSimple]⟩
      · rename_i notSimple
        split at done
        · rename_i hex
          obtain ⟨used, rfl, reads⟩ := hexEscape_reads done
          refine ⟨byte :: used, rfl, fun next _ => ?_⟩
          rw [List.cons_append, escape, notSimple]
          simp only [if_pos hex]
          exact reads next
        · rename_i notHex
          split at done
          · rename_i unicode
            obtain ⟨used, rfl, reads⟩ := unicodeEscape_reads done
            refine ⟨byte :: used, rfl, fun next _ => ?_⟩
            rw [List.cons_append, escape, notSimple]
            simp only [if_neg notHex, if_pos unicode]
            exact reads next
          · rename_i notUnicode
            split at done
            · rename_i lineEnd
              simp only [Except.ok.injEq, Prod.mk.injEq] at done
              obtain ⟨rfl, rfl⟩ := done
              refine ⟨byte :: text.takeWhile Byte.isGap, by simp, ?_⟩
              intro next sameHead
              have stop : Bytes.NoGap next := by
                intro first head
                exact Bytes.noGap_dropWhile text first (sameHead ▸ head)
              rw [List.cons_append, escape, notSimple]
              simp only [if_neg notHex, if_neg notUnicode, if_pos lineEnd]
              rw [Bytes.dropWhile_gap (Bytes.isGap_takeWhile text) stop]
            · contradiction

section Plain

variable (whole seen : Bytes) {rest : Bytes}

theorem plain_quote (rest : Bytes) :
    plain whole seen (Byte.quote :: rest) = .ok (seen.reverse, rest) := by
  rw [plain, if_pos rfl]

theorem plain_return (feed : rest.head? = some Byte.lf) :
    plain whole seen (Byte.cr :: rest) = plain whole seen rest := by
  rw [plain, if_neg (by decide), if_pos rfl, if_pos feed]

theorem plain_escape {piece after : Bytes} (escaped : escape rest = .ok (piece, after)) :
    plain whole seen (Byte.backslash :: rest) = plain whole (piece.reverse ++ seen) after := by
  rw [plain, if_neg (by decide), if_neg (by decide), if_pos rfl]
  split <;> simp_all

theorem plain_escape_unterminated (failed : escape rest = .error .unterminated) :
    plain whole seen (Byte.backslash :: rest) = .error (.unterminated, whole) := by
  rw [plain, if_neg (by decide), if_neg (by decide), if_pos rfl]
  split <;> simp_all

theorem plain_escape_fault {fault : Fault} (failed : escape rest = .error fault)
    (here : fault ≠ .unterminated) :
    plain whole seen (Byte.backslash :: rest) = .error (fault, Byte.backslash :: rest) := by
  rw [plain, if_neg (by decide), if_neg (by decide), if_pos rfl]
  split <;> simp_all

theorem plain_byte {byte : UInt8} (noQuote : byte ≠ Byte.quote) (noReturn : byte ≠ Byte.cr)
    (noBackslash : byte ≠ Byte.backslash) :
    plain whole seen (byte :: rest) = plain whole (byte :: seen) rest := by
  rw [plain, if_neg noQuote, if_neg noReturn, if_neg noBackslash]

end Plain

theorem plain_reads {whole seen text value rest : Bytes}
    (done : plain whole seen text = .ok (value, rest)) :
    ∃ used, text = used ++ rest ∧ ∀ other, Reads (plain other seen) used value := by
  fun_induction plain whole seen text with
  | case1 => contradiction
  | case2 seen after =>
      simp only [Except.ok.injEq, Prod.mk.injEq] at done
      obtain ⟨rfl, rfl⟩ := done
      exact ⟨[Byte.quote], rfl, fun other tail => plain_quote other seen tail⟩
  | case3 seen after feed _ ih =>
      obtain ⟨used, rfl, reads⟩ := ih done
      have shorter := plain_length done
      refine ⟨Byte.cr :: used, rfl, ?_⟩
      intro other tail
      cases used with
      | nil => simp at shorter
      | cons first used =>
          rw [List.cons_append, plain_return _ _ (by simpa using feed)]
          exact reads other tail
  | case4 => contradiction
  | case5 => contradiction
  | case6 => contradiction
  | case7 seen text piece after escaped _ _ ih =>
      obtain ⟨used, rfl, reads⟩ := ih done
      have shorter := plain_length done
      obtain ⟨front, rfl, again⟩ := escape_split escaped
      refine ⟨Byte.backslash :: (front ++ used), by simp, ?_⟩
      intro other tail
      have sameHead : (used ++ tail).head? = (used ++ rest).head? := by
        cases used with
        | nil => simp at shorter
        | cons first used => rfl
      rw [List.cons_append, List.append_assoc, plain_escape _ _ (again _ sameHead)]
      exact reads other tail
  | case8 seen byte text noQuote noReturn noBackslash ih =>
      obtain ⟨used, rfl, reads⟩ := ih done
      refine ⟨byte :: used, rfl, ?_⟩
      intro other tail
      rw [List.cons_append, plain_byte _ _ noQuote noReturn noBackslash]
      exact reads other tail

theorem drop_closing (hashes : Nat) (content after : Bytes) :
    (content ++ (closing hashes ++ after)).drop (content.length + hashes + 1) = after := by
  have size : content.length + hashes + 1 = (content ++ closing hashes).length := by
    simp only [closing, List.length_append, List.length_cons, List.length_replicate]
    omega
  rw [size, ← List.append_assoc, List.drop_left]

theorem takeWhile_hashes {hashes : Bytes} (allHash : ∀ byte ∈ hashes, byte = Byte.hash)
    (body : Bytes) :
    (hashes ++ Byte.quote :: body).takeWhile (· == Byte.hash) = hashes := by
  rw [List.takeWhile_append_of_pos (by simpa using allHash)]
  simp [Byte.quote, Byte.hash]

theorem raw_eq {hashes body : Bytes} (allHash : ∀ byte ∈ hashes, byte = Byte.hash)
    (whole : Bytes) :
    raw whole (hashes ++ Byte.quote :: body) =
      match Bytes.find? (closing hashes.length) body with
      | some length =>
        .ok (Bytes.dropReturns (body.take length), body.drop (length + hashes.length + 1))
      | none => .error (.unterminatedRaw hashes.length, whole) := by
  have inside : ∀ byte ∈ hashes, (byte == Byte.hash) = true := by simpa using allHash
  have taken := takeWhile_hashes allHash body
  have dropped : (hashes ++ Byte.quote :: body).dropWhile (· == Byte.hash) =
      Byte.quote :: body := by
    rw [List.dropWhile_append_of_pos inside]
    simp [Byte.quote, Byte.hash]
  unfold raw
  cases found : Bytes.find? (closing hashes.length) body with
  | none => simp only [taken, dropped, if_pos, found]
  | some length => simp only [taken, dropped, if_pos, found]

theorem raw_shape {whole text : Bytes} {result : Bytes × Bytes}
    (done : raw whole text = .ok result) :
    ∃ hashes body, (∀ byte ∈ hashes, byte = Byte.hash) ∧ text = hashes ++ Byte.quote :: body := by
  have split := List.takeWhile_append_dropWhile (p := (· == Byte.hash)) (l := text)
  simp only [raw] at done
  split at done
  · contradiction
  · rename_i byte body found
    split at done
    · rename_i quote
      refine ⟨text.takeWhile (· == Byte.hash), body, ?_, ?_⟩
      · simpa using List.all_eq_true.mp (List.all_takeWhile (p := (· == Byte.hash)) (l := text))
      · rw [← quote, ← found, split]
    · contradiction

theorem raw_split {whole text value rest : Bytes} (done : raw whole text = .ok (value, rest)) :
    ∃ hashes content, (∀ byte ∈ hashes, byte = Byte.hash) ∧
      text = hashes ++ Byte.quote :: (content ++ (closing hashes.length ++ rest)) ∧
      value = Bytes.dropReturns content ∧
      ∀ tail, Bytes.find? (closing hashes.length) (content ++ (closing hashes.length ++ tail)) =
        some content.length := by
  obtain ⟨hashes, body, allHash, rfl⟩ := raw_shape done
  rw [raw_eq allHash] at done
  split at done
  · rename_i length found
    obtain ⟨content, after, rfl, placed, again⟩ := Bytes.findFrom_split found
    rw [Nat.zero_add] at placed
    subst placed
    simp only [drop_closing, List.take_left, Except.ok.injEq, Prod.mk.injEq] at done
    obtain ⟨rfl, rfl⟩ := done
    exact ⟨hashes, content, allHash, rfl, rfl, again⟩
  · contradiction

theorem raw_reads {whole text value rest : Bytes} (done : raw whole text = .ok (value, rest)) :
    ∃ used, text = used ++ rest ∧ ∀ other, Reads (raw other) used value := by
  obtain ⟨hashes, content, allHash, rfl, rfl, again⟩ := raw_split done
  refine ⟨hashes ++ Byte.quote :: (content ++ closing hashes.length), by simp, ?_⟩
  intro other tail
  rw [List.append_assoc, List.cons_append, raw_eq allHash, List.append_assoc, again tail]
  simp only [drop_closing, List.take_left]

theorem read_reads {text value rest : Bytes} (done : read text = .ok (value, rest)) :
    ∃ used, text = used ++ rest ∧ Reads read used value := by
  unfold read at done
  split at done
  · contradiction
  · rename_i byte after
    split at done
    · rename_i isRaw
      obtain ⟨used, rfl, reads⟩ := raw_reads done
      refine ⟨byte :: used, rfl, ?_⟩
      intro tail
      rw [List.cons_append, read, if_pos isRaw]
      exact reads _ tail
    · rename_i notRaw
      split at done
      · rename_i quote
        obtain ⟨used, rfl, reads⟩ := plain_reads done
        refine ⟨byte :: used, rfl, ?_⟩
        intro tail
        rw [List.cons_append, read, if_neg notRaw, if_pos quote]
        exact reads _ tail
      · contradiction

theorem plain_fault {whole seen text spot : Bytes} {fault : Fault} (within : text <:+ whole)
    (failed : plain whole seen text = .error (fault, spot)) : spot <:+ whole := by
  have later {byte : UInt8} {rest : Bytes} (within : byte :: rest <:+ whole) : rest <:+ whole :=
    (List.suffix_cons byte rest).trans within
  fun_induction plain whole seen text with
  | case1 =>
      simp only [Except.error.injEq, Prod.mk.injEq] at failed
      exact failed.2 ▸ List.suffix_rfl
  | case2 => contradiction
  | case3 _ _ _ _ ih => exact ih (later within) failed
  | case4 =>
      simp only [Except.error.injEq, Prod.mk.injEq] at failed
      exact failed.2 ▸ within
  | case5 =>
      simp only [Except.error.injEq, Prod.mk.injEq] at failed
      exact failed.2 ▸ List.suffix_rfl
  | case6 =>
      simp only [Except.error.injEq, Prod.mk.injEq] at failed
      exact failed.2 ▸ within
  | case7 value rest piece after escaped _ _ ih =>
      obtain ⟨used, rfl, -⟩ := escape_split escaped
      exact ih ((List.suffix_append used after).trans (later within)) failed
  | case8 _ _ _ _ _ _ ih => exact ih (later within) failed

theorem raw_fault {whole text spot : Bytes} {fault : Fault}
    (failed : raw whole text = .error (fault, spot)) : spot = whole := by
  unfold raw at failed
  simp only at failed
  repeat' split at failed
  all_goals first
    | contradiction
    | exact (Prod.mk.inj (Except.error.inj failed)).2.symm

theorem read_fault {text spot : Bytes} {fault : Fault} (failed : read text = .error (fault, spot)) :
    spot <:+ text := by
  unfold read at failed
  split at failed
  · simp only [Except.error.injEq, Prod.mk.injEq] at failed
    exact failed.2 ▸ List.suffix_rfl
  · rename_i byte rest
    split at failed
    · exact raw_fault failed ▸ List.suffix_rfl
    · split at failed
      · exact plain_fault (List.suffix_cons byte rest) failed
      · simp only [Except.error.injEq, Prod.mk.injEq] at failed
        exact failed.2 ▸ List.suffix_rfl

theorem isStart_of_read {text : Bytes} {result : Bytes × Bytes} (done : read text = .ok result) :
    isStart text = true := by
  unfold read at done
  split at done
  · contradiction
  · rename_i byte after
    split at done
    · rename_i isRaw
      obtain ⟨hashes, body, allHash, rfl⟩ := raw_shape done
      have inside : ∀ byte ∈ hashes, (byte == Byte.hash) = true := by simpa using allHash
      simp [isStart, isRaw, List.dropWhile_append_of_pos inside, Byte.quote, Byte.hash]
    · split at done
      · rename_i quote
        simp [isStart, quote]
      · contradiction

end Literal

namespace Attribute

theorem exists_gap (text : Bytes) : ∃ gap, Bytes.IsGap gap ∧ text = gap ++ skipGap text :=
  ⟨text.takeWhile Byte.isGap, Bytes.isGap_takeWhile text,
    List.takeWhile_append_dropWhile.symm⟩

theorem afterToken?_eq_some_iff (byte : UInt8) (token : Byte.isGap byte = false)
    {text rest : Bytes} :
    afterToken? byte text = some rest ↔ ∃ gap, Bytes.IsGap gap ∧ text = gap ++ byte :: rest := by
  unfold afterToken?
  constructor
  · intro found
    obtain ⟨gap, isGap, shape⟩ := exists_gap text
    split at found
    · contradiction
    · rename_i first after skipped
      split at found
      · rename_i same
        simp only [Option.some.injEq] at found
        exact ⟨gap, isGap, by rw [← found, ← same, ← skipped, ← shape]⟩
      · contradiction
  · rintro ⟨gap, isGap, rfl⟩
    have skipped : skipGap (gap ++ byte :: rest) = byte :: rest :=
      Bytes.dropWhile_gap isGap (Bytes.noGap_cons token rest)
    rw [skipped]
    simp

theorem body?_eq_some_iff {text body : Bytes} :
    body? text = some body ↔
      ∃ gap, Bytes.IsGap gap ∧ text = mark ++ (gap ++ Byte.openBracket :: body) := by
  simp only [body?, Option.bind_eq_some_iff, Bytes.after?_eq_some_iff,
    afterToken?_eq_some_iff Byte.openBracket (by decide)]
  constructor
  · rintro ⟨rest, rfl, gap, isGap, rfl⟩
    exact ⟨gap, isGap, rfl⟩
  · rintro ⟨gap, isGap, rfl⟩
    exact ⟨_, rfl, gap, isGap, rfl⟩

theorem body?_suffix {text body : Bytes} (opened : body? text = some body) : body <:+ text := by
  obtain ⟨gap, -, rfl⟩ := body?_eq_some_iff.mp opened
  exact ⟨mark ++ (gap ++ [Byte.openBracket]), by simp⟩

theorem noGap_of_isStart {value : Bytes} (start : Literal.isStart value = true) :
    Bytes.NoGap value := by
  cases value with
  | nil => simp [Bytes.NoGap]
  | cons byte rest =>
      apply Bytes.noGap_cons
      have first : byte = Byte.quote ∨ byte = Literal.rawMark := by
        simp only [Literal.isStart, Bool.or_eq_true, Bool.and_eq_true, beq_iff_eq] at start
        exact start.imp_right And.left
      rcases first with rfl | rfl <;> decide

theorem literal?_shape {first second third value : Bytes} (firstGap : Bytes.IsGap first)
    (secondGap : Bytes.IsGap second) (thirdGap : Bytes.IsGap third) (noGap : Bytes.NoGap value) :
    literal? (first ++ (docName ++ (second ++ Byte.equals :: (third ++ value)))) =
      if Literal.isStart value then some value else none := by
  have skipped : skipGap (first ++ (docName ++ (second ++ Byte.equals :: (third ++ value)))) =
      docName ++ (second ++ Byte.equals :: (third ++ value)) :=
    Bytes.dropWhile_gap firstGap (Bytes.noGap_cons (by decide) _)
  have noWord : (second ++ Byte.equals :: (third ++ value)).head?.any Byte.isWord = false := by
    cases second with
    | nil => rfl
    | cons byte second =>
        rcases Byte.isGap_iff.mp (secondGap byte (by simp)) with rfl | rfl | rfl | rfl <;> rfl
  have assigned : afterToken? Byte.equals (second ++ Byte.equals :: (third ++ value)) =
      some (third ++ value) :=
    (afterToken?_eq_some_iff Byte.equals (by decide)).mpr ⟨second, secondGap, rfl⟩
  have valued : skipGap (third ++ value) = value := Bytes.dropWhile_gap thirdGap noGap
  simp only [literal?, skipped, Bytes.after?_append, Option.bind_eq_bind, Option.bind_some, noWord,
    Bool.false_eq_true, if_false, assigned, valued]

theorem literal?_eq_some_iff {body value : Bytes} :
    literal? body = some value ↔ Literal.isStart value = true ∧
      ∃ first second third, Bytes.IsGap first ∧ Bytes.IsGap second ∧ Bytes.IsGap third ∧
        body = first ++ (docName ++ (second ++ Byte.equals :: (third ++ value))) := by
  constructor
  · intro literal
    simp only [literal?, bind, Option.bind_eq_some_iff] at literal
    obtain ⟨named, isNamed, found⟩ := literal
    split at found
    · contradiction
    · obtain ⟨rest, assigned, found⟩ := Option.bind_eq_some_iff.mp found
      split at found
      · rename_i start
        simp only [Option.some.injEq] at found
        subst found
        obtain ⟨first, firstGap, shape⟩ := exists_gap body
        obtain ⟨second, secondGap, secondShape⟩ :=
          (afterToken?_eq_some_iff Byte.equals (by decide)).mp assigned
        obtain ⟨third, thirdGap, thirdShape⟩ := exists_gap rest
        refine ⟨start, first, second, third, firstGap, secondGap, thirdGap, ?_⟩
        rw [← thirdShape, ← secondShape, ← Bytes.after?_eq_some_iff.mp isNamed, ← shape]
      · contradiction
  · rintro ⟨start, first, second, third, firstGap, secondGap, thirdGap, rfl⟩
    rw [literal?_shape firstGap secondGap thirdGap (noGap_of_isStart start), if_pos start]

theorem literal?_suffix {body value : Bytes} (literal : literal? body = some value) :
    value <:+ body := by
  obtain ⟨-, first, second, third, -, -, -, rfl⟩ := literal?_eq_some_iff.mp literal
  exact ⟨first ++ (docName ++ (second ++ Byte.equals :: third)), by simp⟩

theorem close_eq_ok_iff {isRaw : Bool} {text rest : Bytes} :
    close isRaw text = .ok rest ↔
      ∃ gap, Bytes.IsGap gap ∧ text = gap ++ Byte.closeBracket :: rest := by
  rw [← afterToken?_eq_some_iff Byte.closeBracket (by decide)]
  unfold close afterToken?
  cases skipGap text with
  | nil => simp
  | cons byte after =>
      by_cases bracket : byte = Byte.closeBracket
      · simp [bracket]
      · simp only [bracket, if_false]
        split <;> simp

theorem close_fault {isRaw : Bool} {text spot : Bytes} {fault : Fault}
    (failed : close isRaw text = .error (fault, spot)) : spot <:+ text := by
  have gap : skipGap text <:+ text := List.dropWhile_suffix _
  unfold close at failed
  split at failed
  · simp only [Except.error.injEq, Prod.mk.injEq] at failed
    exact failed.2 ▸ List.nil_suffix
  · rename_i byte rest shape
    rw [shape] at gap
    repeat' split at failed
    · contradiction
    · simp only [Except.error.injEq, Prod.mk.injEq] at failed
      exact failed.2 ▸ gap
    · simp only [Except.error.injEq, Prod.mk.injEq] at failed
      exact failed.2 ▸ gap

theorem read_eq_ok_iff {value text after : Bytes} :
    read value = .ok (text, after) ↔ ∃ gap, Bytes.IsGap gap ∧
      Literal.read value = .ok (text, gap ++ Byte.closeBracket :: after) := by
  unfold read
  constructor
  · intro done
    split at done
    · contradiction
    · rename_i found rest literal
      split at done
      · contradiction
      · rename_i closed
        simp only [Except.ok.injEq, Prod.mk.injEq] at done
        obtain ⟨rfl, rfl⟩ := done
        obtain ⟨gap, isGap, shape⟩ := close_eq_ok_iff.mp closed
        exact ⟨gap, isGap, by rw [literal, shape]⟩
  · rintro ⟨gap, isGap, literal⟩
    rw [literal]
    simp only
    rw [close_eq_ok_iff.mpr ⟨gap, isGap, rfl⟩]

theorem read_reads {value text rest : Bytes} (done : read value = .ok (text, rest)) :
    ∃ used, value = used ++ rest ∧ Reads read used text := by
  obtain ⟨gap, isGap, literal⟩ := read_eq_ok_iff.mp done
  obtain ⟨used, rfl, reads⟩ := Literal.read_reads literal
  refine ⟨used ++ (gap ++ [Byte.closeBracket]), by simp, ?_⟩
  intro tail
  refine read_eq_ok_iff.mpr ⟨gap, isGap, ?_⟩
  rw [List.append_assoc, List.append_assoc]
  exact reads _

theorem read_fault {value spot : Bytes} {fault : Fault}
    (failed : read value = .error (fault, spot)) : spot <:+ value := by
  unfold read at failed
  split at failed
  · rename_i literalFault literalSpot literal
    simp only [Except.error.injEq, Prod.mk.injEq] at failed
    exact failed.2 ▸ Literal.read_fault literal
  · rename_i text rest literal
    obtain ⟨used, rfl, -⟩ := Literal.read_reads literal
    split at failed
    · rename_i problem closed
      rw [Except.error.injEq] at failed
      subst failed
      exact (close_fault closed).trans (List.suffix_append used rest)
    · contradiction

theorem read_split {source body value text tail : Bytes} (opened : body? source = some body)
    (literal : literal? body = some value) (done : read value = .ok (text, tail)) :
    ∃ core, source = core ++ Byte.closeBracket :: tail ∧
      ∀ other, ∃ otherBody otherValue, body? (core ++ Byte.closeBracket :: other) = some otherBody ∧
        literal? otherBody = some otherValue ∧ read otherValue = .ok (text, other) := by
  obtain ⟨gap, isGap, rfl⟩ := body?_eq_some_iff.mp opened
  obtain ⟨-, first, second, third, firstGap, secondGap, thirdGap, rfl⟩ :=
    literal?_eq_some_iff.mp literal
  obtain ⟨last, lastGap, readLiteral⟩ := read_eq_ok_iff.mp done
  obtain ⟨used, rfl, reads⟩ := Literal.read_reads readLiteral
  refine ⟨mark ++ (gap ++ Byte.openBracket :: (first ++ (docName ++ (second ++ Byte.equals ::
    (third ++ (used ++ last)))))), by simp, ?_⟩
  intro other
  have valued := reads (last ++ Byte.closeBracket :: other)
  refine ⟨_, _, body?_eq_some_iff.mpr ⟨gap, isGap, ?_⟩, literal?_eq_some_iff.mpr
    ⟨Literal.isStart_of_read valued, first, second, third, firstGap, secondGap, thirdGap, rfl⟩,
    read_eq_ok_iff.mpr ⟨last, lastGap, valued⟩⟩
  simp

end Attribute

namespace Comment

theorem closeFrom_open (inner passed : Nat) (rest : Bytes) :
    closeFrom inner passed (Byte.slash :: Byte.star :: rest) =
      closeFrom (inner + 1) (passed + 2) rest := by
  simp [closeFrom]

theorem closeFrom_close (passed : Nat) (rest : Bytes) :
    closeFrom 0 passed (Byte.star :: Byte.slash :: rest) = some passed := by
  simp [closeFrom, Byte.star, Byte.slash]

theorem closeFrom_close_inner (outer passed : Nat) (rest : Bytes) :
    closeFrom (outer + 1) passed (Byte.star :: Byte.slash :: rest) =
      closeFrom outer (passed + 2) rest := by
  simp [closeFrom, Byte.star, Byte.slash]

theorem closeFrom_byte (inner passed : Nat) {first second : UInt8} (rest : Bytes)
    (noOpen : ¬(first = Byte.slash ∧ second = Byte.star))
    (noClose : ¬(first = Byte.star ∧ second = Byte.slash)) :
    closeFrom inner passed (first :: second :: rest) =
      closeFrom inner (passed + 1) (second :: rest) := by
  cases inner <;> simp [closeFrom, noOpen, noClose]

theorem closeFrom_neutral {byte : UInt8} (noSlash : byte ≠ Byte.slash) (noStar : byte ≠ Byte.star)
    (inner passed : Nat) (rest : Bytes) :
    closeFrom inner passed (byte :: rest) = closeFrom inner (passed + 1) rest := by
  cases rest with
  | nil => rfl
  | cons second rest =>
      exact closeFrom_byte inner passed rest (fun both => noSlash both.1) fun both => noStar both.1

theorem closeFrom_split {inner passed length : Nat} {text : Bytes}
    (found : closeFrom inner passed text = some length) :
    ∃ body after, text = body ++ Byte.star :: Byte.slash :: after ∧
      length = passed + body.length ∧
      ∀ tail, closeFrom inner passed (body ++ Byte.star :: Byte.slash :: tail) = some length := by
  fun_induction closeFrom inner passed text with
  | case1 inner passed first second rest opens ih =>
      obtain ⟨rfl, rfl⟩ := opens
      obtain ⟨body, after, rfl, placed, again⟩ := ih found
      refine ⟨Byte.slash :: Byte.star :: body, after, rfl, by simp [placed]; omega, ?_⟩
      intro tail
      rw [List.cons_append, List.cons_append, closeFrom_open]
      exact again tail
  | case2 passed first second rest noOpen closes =>
      obtain ⟨rfl, rfl⟩ := closes
      simp only [Option.some.injEq] at found
      refine ⟨[], rest, rfl, by simp [found], ?_⟩
      intro tail
      rw [List.nil_append, closeFrom_close, found]
  | case3 passed first second rest noOpen closes outer ih =>
      obtain ⟨rfl, rfl⟩ := closes
      obtain ⟨body, after, rfl, placed, again⟩ := ih found
      refine ⟨Byte.star :: Byte.slash :: body, after, rfl, by simp [placed]; omega, ?_⟩
      intro tail
      rw [List.cons_append, List.cons_append, closeFrom_close_inner]
      exact again tail
  | case4 inner passed first second rest noOpen noClose ih =>
      obtain ⟨body, after, shape, placed, again⟩ := ih found
      refine ⟨first :: body, after, by rw [shape, List.cons_append], by simp [placed]; omega, ?_⟩
      intro tail
      -- What stands behind `first` starts with `second` in front of every tail.
      have next : ∃ others, body ++ Byte.star :: Byte.slash :: tail = second :: others := by
        cases body with
        | nil =>
            simp only [List.nil_append, List.cons.injEq] at shape
            exact ⟨_, by rw [shape.1, List.nil_append]⟩
        | cons byte body =>
            simp only [List.cons_append, List.cons.injEq] at shape
            exact ⟨_, by rw [shape.1, List.cons_append]⟩
      obtain ⟨others, next⟩ := next
      rw [List.cons_append, next, closeFrom_byte _ _ _ noOpen noClose, ← next]
      exact again tail
  | case5 => contradiction

theorem bodyLength?_anywhere {body tail : Bytes}
    (found : bodyLength? (body ++ Byte.star :: Byte.slash :: tail) = some body.length)
    (other : Bytes) :
    bodyLength? (body ++ Byte.star :: Byte.slash :: other) = some body.length := by
  obtain ⟨found', after, shape, placed, again⟩ := closeFrom_split found
  have same : body = found' := (List.append_inj shape (by omega)).1
  exact same ▸ again other

end Comment

end DocPrologue
