import Mathlib.Data.List.Sort
import DocPrologue.Bytes

/-!
Texts in byte order, each once: sorting keeps exactly the texts of a list and leaves them strictly
increasing, so it depends on nothing but which texts there are.
-/

namespace DocPrologue.Bytes

theorem le_total (left right : Bytes) : (le left right || le right left) = true := by
  fun_induction le left right with
  | case1 => simp
  | case2 => simp [le]
  | case3 left lefts right rights less => simp
  | case4 left lefts right rights notLess less =>
      simp [le, less]
  | case5 left lefts right rights notLess notGreater ih =>
      simpa [le, notLess, notGreater] using ih

theorem le_antisymm {left right : Bytes} (forth : le left right = true)
    (back : le right left = true) : left = right := by
  fun_induction le left right with
  | case1 right =>
      cases right with
      | nil => rfl
      | cons byte rest => simp [le] at back
  | case2 => contradiction
  | case3 left lefts right rights less =>
      have notGreater := UInt8.lt_asymm less
      simp [le, less, notGreater] at back
  | case4 => contradiction
  | case5 left lefts right rights notLess notGreater ih =>
      have same : left = right :=
        UInt8.le_antisymm (UInt8.not_lt.mp notGreater) (UInt8.not_lt.mp notLess)
      simp only [le, notLess, notGreater, if_false] at back
      rw [same, ih forth back]

theorem le_trans {first second third : Bytes} (lower : le first second = true)
    (upper : le second third = true) : le first third = true := by
  fun_induction le first second generalizing third with
  | case1 => simp [le]
  | case2 => contradiction
  | case3 left lefts right rights less =>
      cases third with
      | nil => contradiction
      | cons byte rest =>
          have between : right ≤ byte := by
            apply UInt8.not_lt.mp
            intro greater
            simp [le, UInt8.lt_asymm greater, greater] at upper
          simp [le, UInt8.lt_of_lt_of_le less between]
  | case4 => contradiction
  | case5 left lefts right rights notLess notGreater ih =>
      have same : left = right :=
        UInt8.le_antisymm (UInt8.not_lt.mp notGreater) (UInt8.not_lt.mp notLess)
      cases third with
      | nil => contradiction
      | cons byte rest =>
          rw [same]
          rw [le] at upper ⊢
          split
          · rfl
          · rename_i noLess
            rw [if_neg noLess] at upper
            split
            · rename_i greater
              rw [if_pos greater] at upper
              contradiction
            · rename_i noGreater
              rw [if_neg noGreater] at upper
              exact ih lower upper

theorem lt_of_le {left right : Bytes} (below : le left right = true) (different : left ≠ right) :
    left < right := by
  fun_induction le left right with
  | case1 right =>
      cases right with
      | nil => contradiction
      | cons byte rest => exact List.nil_lt_cons byte rest
  | case2 => contradiction
  | case3 left lefts right rights less => exact List.cons_lt_cons_iff.mpr (.inl less)
  | case4 => contradiction
  | case5 left lefts right rights notLess notGreater ih =>
      have same : left = right :=
        UInt8.le_antisymm (UInt8.not_lt.mp notGreater) (UInt8.not_lt.mp notLess)
      exact List.cons_lt_cons_iff.mpr
        (.inr ⟨same, ih below fun equal => different (by rw [same, equal])⟩)

def dropRepeated (texts : List Bytes) : List Bytes :=
  texts.foldr (fun text kept => if kept.head? = some text then kept else text :: kept) []

theorem sortUnique_eq (texts : List Bytes) :
    sortUnique texts = dropRepeated (texts.mergeSort le) := rfl

theorem dropRepeated_cons (text : Bytes) (texts : List Bytes) :
    dropRepeated (text :: texts) =
      if (dropRepeated texts).head? = some text then dropRepeated texts
      else text :: dropRepeated texts := rfl

theorem mem_dropRepeated {text : Bytes} {texts : List Bytes} :
    text ∈ dropRepeated texts ↔ text ∈ texts := by
  induction texts with
  | nil => rfl
  | cons first texts ih =>
      rw [dropRepeated_cons, List.mem_cons]
      split
      · rename_i head
        rw [ih]
        constructor
        · exact .inr
        · rintro (rfl | later)
          · exact ih.mp (List.mem_of_head? head)
          · exact later
      · rw [List.mem_cons, ih]

theorem dropRepeated_head? (texts : List Bytes) : (dropRepeated texts).head? = texts.head? := by
  cases texts with
  | nil => rfl
  | cons first texts =>
      rw [dropRepeated_cons, List.head?_cons]
      split
      · assumption
      · rfl

theorem dropRepeated_increasing {texts : List Bytes}
    (sorted : texts.Pairwise fun left right => le left right = true) :
    (dropRepeated texts).Pairwise (· < ·) := by
  induction texts with
  | nil => exact .nil
  | cons first texts ih =>
      obtain ⟨least, rest⟩ := List.pairwise_cons.mp sorted
      rw [dropRepeated_cons, dropRepeated_head?]
      split
      · exact ih rest
      · rename_i different
        refine List.pairwise_cons.mpr ⟨?_, ih rest⟩
        intro other member
        have among := mem_dropRepeated.mp member
        apply lt_of_le (least other among)
        rintro rfl
        cases texts with
        | nil => simp at among
        | cons head others =>
            rcases List.mem_cons.mp among with same | later
            · exact different (by rw [same, List.head?_cons])
            · have below := (List.pairwise_cons.mp rest).1 first later
              have above := least head (List.mem_cons_self ..)
              exact different (by rw [List.head?_cons, le_antisymm below above])

theorem mem_sortUnique {text : Bytes} {texts : List Bytes} :
    text ∈ sortUnique texts ↔ text ∈ texts := by
  rw [sortUnique_eq, mem_dropRepeated, List.mem_mergeSort]

theorem sortUnique_increasing (texts : List Bytes) : (sortUnique texts).Pairwise (· < ·) := by
  apply dropRepeated_increasing
  exact @List.pairwise_mergeSort Bytes le (fun _ _ _ => le_trans) le_total texts

theorem sortUnique_eq_of_mem_iff {texts others : List Bytes}
    (same : ∀ text, text ∈ texts ↔ text ∈ others) : sortUnique texts = sortUnique others := by
  refine (sortUnique_increasing texts).eq_of_mem_iff (sortUnique_increasing others) fun text => ?_
  rw [mem_sortUnique, mem_sortUnique, same]

end DocPrologue.Bytes
