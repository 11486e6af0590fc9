import DocPrologue.Text.Utf8
import DocPrologue.Proofs.Pieces

/-!
Characters in texts. The bytes of a character stand in a text only where the text is read as that
character: they begin inside no other one.
-/

namespace DocPrologue.Text

section Glyphs

variable {code value first second third fourth : Nat} {lead : UInt8} {rest tail text : Bytes}

theorem readGlyph_split (lead : UInt8) (rest : Bytes) :
    ∃ tail, rest = tail ++ (readGlyph lead rest).2 ∧
      ∀ byte ∈ tail, isContinuation byte = true := by
  fun_cases readGlyph lead rest with
  | case2 _ _ second after continued => exact ⟨[second], rfl, by simpa using continued⟩
  | case5 _ _ _ second third after continued =>
      simp only [Bool.and_eq_true] at continued
      exact ⟨[second, third], rfl, by simpa using continued.1.1⟩
  | case8 _ _ _ _ second third fourth after continued =>
      simp only [Bool.and_eq_true] at continued
      exact ⟨[second, third, fourth], rfl, by simpa [and_assoc] using continued.1.1⟩
  | _ => exact ⟨[], rfl, by simp⟩

theorem toNat_byte (small : value < 256) : value.toUInt8.toNat = value :=
  UInt8.toNat_ofNat_of_lt small

theorem isContinuation_iff :
    isContinuation lead = true ↔ 0x80 ≤ lead.toNat ∧ lead.toNat < 0xC0 := by
  simp [isContinuation, UInt8.le_iff_toNat_le, UInt8.lt_iff_toNat_lt]

theorem isContinuation_byte (small : value < 64) :
    isContinuation (0x80 + value).toUInt8 = true := by
  rw [isContinuation_iff, toNat_byte (by omega)]
  omega

theorem readGlyph_single (small : first < 0x80) :
    readGlyph first.toUInt8 rest = (.char first, rest) := by
  have same : first.toUInt8.toNat = first := toNat_byte (by omega)
  have ascii : first.toUInt8 < 0x80 := by
    rw [UInt8.lt_iff_toNat_lt, same]
    exact small
  rw [readGlyph.eq_def, if_pos ascii, same]

theorem readGlyph_pair (range : 2 ≤ first ∧ first < 0x20) (small : second < 64) :
    readGlyph (0xC0 + first).toUInt8 ((0x80 + second).toUInt8 :: rest) =
      (.char (first * 64 + second), rest) := by
  have one : (0xC0 + first).toUInt8.toNat = 0xC0 + first := toNat_byte (by omega)
  have two : (0x80 + second).toUInt8.toNat = 0x80 + second := toNat_byte (by omega)
  have continued := isContinuation_byte small
  generalize (0xC0 + first).toUInt8 = lead at one ⊢
  generalize (0x80 + second).toUInt8 = next at two continued ⊢
  have code : code2 lead next = first * 64 + second := by
    unfold code2
    omega
  have above : ¬ lead < 0x80 := by
    simp [UInt8.lt_iff_toNat_lt]
    omega
  have led : (0xC2 ≤ lead && lead < 0xE0) = true := by
    simp [UInt8.le_iff_toNat_le, UInt8.lt_iff_toNat_lt]
    omega
  rw [readGlyph, if_neg above, if_pos led, ← code]
  exact if_pos continued

theorem readGlyph_triple (range : first < 0x10) (small : second < 64 ∧ third < 64)
    (shortest : 0x800 ≤ first * 4096 + second * 64 + third)
    (scalar : isScalar (first * 4096 + second * 64 + third) = true) :
    readGlyph (0xE0 + first).toUInt8
        ((0x80 + second).toUInt8 :: (0x80 + third).toUInt8 :: rest) =
      (.char (first * 4096 + second * 64 + third), rest) := by
  have one : (0xE0 + first).toUInt8.toNat = 0xE0 + first := toNat_byte (by omega)
  have two : (0x80 + second).toUInt8.toNat = 0x80 + second := toNat_byte (by omega)
  have three : (0x80 + third).toUInt8.toNat = 0x80 + third := toNat_byte (by omega)
  have continued := And.intro (isContinuation_byte small.1) (isContinuation_byte small.2)
  generalize (0xE0 + first).toUInt8 = lead at one ⊢
  generalize (0x80 + second).toUInt8 = next at two continued ⊢
  generalize (0x80 + third).toUInt8 = last at three continued ⊢
  have code : code3 lead next last = first * 4096 + second * 64 + third := by
    unfold code3
    omega
  have above : ¬ lead < 0x80 ∧ ¬ (0xC2 ≤ lead && lead < 0xE0) = true := by
    simp [UInt8.le_iff_toNat_le, UInt8.lt_iff_toNat_lt]
    omega
  have led : (0xE0 ≤ lead && lead < 0xF0) = true := by
    simp [UInt8.le_iff_toNat_le, UInt8.lt_iff_toNat_lt]
    omega
  rw [← code] at shortest scalar ⊢
  rw [readGlyph, if_neg above.1, if_neg above.2, if_pos led]
  exact if_pos (by simp [continued, shortest, scalar])

theorem readGlyph_quadruple (range : first < 5) (small : second < 64 ∧ third < 64 ∧ fourth < 64)
    (shortest : 0x10000 ≤ first * 262144 + second * 4096 + third * 64 + fourth)
    (scalar : isScalar (first * 262144 + second * 4096 + third * 64 + fourth) = true) :
    readGlyph (0xF0 + first).toUInt8
        ((0x80 + second).toUInt8 :: (0x80 + third).toUInt8 :: (0x80 + fourth).toUInt8 :: rest) =
      (.char (first * 262144 + second * 4096 + third * 64 + fourth), rest) := by
  have one : (0xF0 + first).toUInt8.toNat = 0xF0 + first := toNat_byte (by omega)
  have two : (0x80 + second).toUInt8.toNat = 0x80 + second := toNat_byte (by omega)
  have three : (0x80 + third).toUInt8.toNat = 0x80 + third := toNat_byte (by omega)
  have four : (0x80 + fourth).toUInt8.toNat = 0x80 + fourth := toNat_byte (by omega)
  have continued := And.intro (isContinuation_byte small.1)
    (And.intro (isContinuation_byte small.2.1) (isContinuation_byte small.2.2))
  generalize (0xF0 + first).toUInt8 = lead at one ⊢
  generalize (0x80 + second).toUInt8 = next at two continued ⊢
  generalize (0x80 + third).toUInt8 = after at three continued ⊢
  generalize (0x80 + fourth).toUInt8 = last at four continued ⊢
  have code : code4 lead next after last =
      first * 262144 + second * 4096 + third * 64 + fourth := by
    unfold code4
    omega
  have above : ¬ lead < 0x80 ∧ ¬ (0xC2 ≤ lead && lead < 0xE0) = true ∧
      ¬ (0xE0 ≤ lead && lead < 0xF0) = true := by
    simp [UInt8.le_iff_toNat_le, UInt8.lt_iff_toNat_lt]
    omega
  have led : (0xF0 ≤ lead && lead < 0xF5) = true := by
    simp [UInt8.le_iff_toNat_le, UInt8.lt_iff_toNat_lt]
    omega
  rw [← code] at shortest scalar ⊢
  rw [readGlyph, if_neg above.1, if_neg above.2.1, if_neg above.2.2, if_pos led]
  exact if_pos (by simp [continued, shortest, scalar])

theorem lt_of_isScalar (scalar : isScalar code = true) : code < 0x110000 := by
  simp only [isScalar, Bool.or_eq_true, Bool.and_eq_true, decide_eq_true_eq] at scalar
  omega

theorem readGlyph_encode (scalar : isScalar code = true) (spelled : encode code = lead :: tail)
    (rest : Bytes) : readGlyph lead (tail ++ rest) = (.char code, rest) := by
  have bound := lt_of_isScalar scalar
  unfold encode at spelled
  split at spelled
  · obtain ⟨rfl, rfl⟩ := List.cons.inj spelled
    exact readGlyph_single (by omega)
  · split at spelled
    · have whole : code / 64 * 64 + code % 64 = code := by omega
      obtain ⟨rfl, rfl⟩ := List.cons.inj spelled
      refine (readGlyph_pair (by omega) (by omega)).trans ?_
      rw [whole, List.append_eq, List.nil_append]
    · split at spelled
      · have whole : code / 4096 * 4096 + code / 64 % 64 * 64 + code % 64 = code := by omega
        obtain ⟨rfl, rfl⟩ := List.cons.inj spelled
        refine (readGlyph_triple (by omega) (by omega) (by omega) (by rwa [whole])).trans ?_
        rw [whole, List.append_eq, List.nil_append]
      · have whole : code / 262144 * 262144 + code / 4096 % 64 * 4096 + code / 64 % 64 * 64 +
            code % 64 = code := by omega
        obtain ⟨rfl, rfl⟩ := List.cons.inj spelled
        refine (readGlyph_quadruple (by omega) (by omega) (by omega) (by rwa [whole])).trans ?_
        rw [whole, List.append_eq, List.nil_append]

theorem isContinuation_lead (scalar : isScalar code = true) (spelled : encode code = lead :: tail) :
    isContinuation lead = false := by
  have bound := lt_of_isScalar scalar
  rw [Bool.eq_false_iff, ne_eq, isContinuation_iff]
  unfold encode at spelled
  repeat' split at spelled
  all_goals
    obtain ⟨rfl, rfl⟩ := List.cons.inj spelled
    rw [toNat_byte (by omega)]
    omega

theorem encode_ne_nil (code : Nat) : encode code ≠ [] := by
  unfold encode
  repeat' split
  all_goals exact List.cons_ne_nil _ _

theorem char_mem_glyphs (scalar : isScalar code = true) (stands : encode code <:+: text) :
    .char code ∈ glyphs text := by
  obtain ⟨first, others, spelled⟩ := List.exists_cons_of_ne_nil (encode_ne_nil code)
  rw [spelled] at stands
  fun_induction glyphs text with
  | case1 => simp at stands
  | case2 lead rest ih =>
      rcases List.infix_cons_iff.mp stands with ⟨more, same⟩ | later
      · obtain ⟨rfl, rfl⟩ := List.cons.inj same
        rw [List.append_eq, readGlyph_encode scalar spelled more]
        exact List.mem_cons_self ..
      · obtain ⟨tail, split, continued⟩ := readGlyph_split lead rest
        refine List.mem_cons_of_mem _ (ih ?_)
        rw [split] at later
        refine (Bytes.infix_append_of_head fun member => ?_).mp later
        have inside := continued first member
        rw [isContinuation_lead scalar spelled] at inside
        contradiction

end Glyphs

end DocPrologue.Text
