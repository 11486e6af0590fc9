import DocPrologue.Proofs.Paths

/-!
Marks in texts. In a text that is put together a mark that shares no byte with what stands between
the pieces stands exactly where it stands in one of the pieces.
-/

namespace DocPrologue.Bytes

section Marks

variable {mark front back text between : Bytes} {separator : UInt8} {parts : List Bytes}

def Apart (mark text : Bytes) : Prop := mark ≠ [] ∧ ∀ byte ∈ mark, byte ∉ text

theorem Apart.of_cons {byte : UInt8} (apart : Apart mark (byte :: text)) :
    byte ∉ mark ∧ Apart mark text := by
  obtain ⟨filled, absent⟩ := apart
  refine ⟨fun member => absent byte member (by simp), filled, fun other member later => ?_⟩
  exact absent other member (List.mem_cons_of_mem byte later)

theorem infix_append_of_head {first : UInt8} (absent : first ∉ front) :
    first :: mark <:+: front ++ text ↔ first :: mark <:+: text := by
  induction front with
  | nil => rfl
  | cons byte front ih =>
      rw [List.mem_cons, not_or] at absent
      rw [List.cons_append, List.infix_cons_iff, List.cons_prefix_cons, ih absent.2]
      exact or_iff_right fun starts => absent.1 starts.1

theorem infix_append_right (apart : Apart mark front) :
    mark <:+: front ++ text ↔ mark <:+: text := by
  obtain ⟨filled, absent⟩ := apart
  obtain ⟨first, mark, rfl⟩ := List.exists_cons_of_ne_nil filled
  exact infix_append_of_head (absent first (by simp))

theorem infix_append_left (apart : Apart mark back) :
    mark <:+: text ++ back ↔ mark <:+: text := by
  have reversed : Apart mark.reverse back.reverse := by
    simpa only [Apart, ne_eq, List.reverse_eq_nil_iff, List.mem_reverse] using apart
  rw [← List.reverse_infix, List.reverse_append, infix_append_right reversed, List.reverse_infix]

theorem infix_around (absent : separator ∉ mark) :
    mark <:+: front ++ separator :: back ↔ mark <:+: front ∨ mark <:+: back := by
  constructor
  · intro stands
    rcases List.infix_append_iff.mp stands with before | behind | ⟨start, rest, rfl, ends, starts⟩
    · exact .inl before
    · rcases List.infix_cons_iff.mp behind with starts | later
      · rcases List.prefix_cons_iff.mp starts with rfl | ⟨rest, rfl, -⟩
        · exact .inl front.nil_infix
        · exact absurd (List.mem_cons_self ..) absent
      · exact .inr later
    · rcases List.prefix_cons_iff.mp starts with rfl | ⟨rest, rfl, -⟩
      · rw [List.append_nil]
        exact .inl ends.isInfix
      · exact absurd (List.mem_append_right _ (List.mem_cons_self ..)) absent
  · rintro (before | behind)
    · exact before.trans (List.prefix_append _ _).isInfix
    · exact behind.trans ⟨front ++ [separator], [], by simp⟩

theorem infix_between (filled : between ≠ []) (apart : Apart mark between) :
    mark <:+: front ++ (between ++ back) ↔ mark <:+: front ∨ mark <:+: back := by
  obtain ⟨separator, between, rfl⟩ := List.exists_cons_of_ne_nil filled
  obtain ⟨absent, apart⟩ := apart.of_cons
  rw [List.cons_append, infix_around absent, infix_append_right apart]

theorem infix_pieces (filled : between ≠ []) (apart : Apart mark between) :
    mark <:+: front ++ (parts.flatMap fun part => between ++ part) ↔
      mark <:+: front ∨ ∃ part ∈ parts, mark <:+: part := by
  induction parts generalizing front with
  | nil => simp
  | cons part parts ih =>
      rw [List.flatMap_cons, List.append_assoc, infix_between filled apart, ih]
      simp

theorem infix_join (filled : between ≠ []) (apart : Apart mark between) :
    mark <:+: join between parts ↔ ∃ part ∈ parts, mark <:+: part := by
  cases parts with
  | nil => simpa [join] using apart.1
  | cons part parts =>
      rw [join, infix_pieces filled apart]
      simp

theorem infix_split (filled : mark ≠ []) (absent : separator ∉ mark) :
    mark <:+: text ↔ ∃ part ∈ split separator text, mark <:+: part := by
  have apart : Apart mark [separator] := ⟨filled, by
    intro byte member same
    rw [List.mem_singleton.mp same] at member
    exact absent member⟩
  rw [← infix_join (by simp) apart, join_split]

theorem infix_ended (absent : separator ∉ mark) :
    mark <:+: (parts.flatMap fun part => part ++ [separator]) ++ back ↔
      (∃ part ∈ parts, mark <:+: part) ∨ mark <:+: back := by
  induction parts with
  | nil => simp
  | cons part parts ih =>
      rw [List.flatMap_cons, List.append_assoc, List.append_assoc, List.singleton_append,
        infix_around absent, ih]
      simp [or_assoc]

end Marks

end DocPrologue.Bytes
