import DocPrologue.Path
import DocPrologue.Proofs.Lines

/-!
Cleaned paths. Cleaning keeps a stack of parts that is settled: its parts are names, below which
only double dots may stand, and those only in a relative path. A settled stack is built again from
its own parts, so cleaning a second time changes nothing, and a resolved path resolves to itself.
What is resolved against the directory of a file is found where the file was resolved.
-/

namespace DocPrologue

theorem Bytes.not_mem_of_mem_split {separator : UInt8} {text part : Bytes}
    (member : part ∈ split separator text) : separator ∉ part := by
  induction text generalizing part with
  | nil =>
      rw [List.mem_singleton.mp member]
      exact List.not_mem_nil
  | cons byte text ih =>
      unfold split at ih member
      rw [List.foldr_cons] at member
      split at member
      · rcases List.mem_cons.mp member with rfl | later
        · exact List.not_mem_nil
        · exact ih later
      · rename_i different
        cases parts : text.foldr (fun byte parts =>
            if byte = separator then [] :: parts else extendFirst byte parts) [[]] with
        | nil =>
            rw [parts, extendFirst, List.mem_singleton] at member
            simpa [member] using Ne.symm different
        | cons first others =>
            rw [parts] at ih member
            rcases List.mem_cons.mp member with rfl | later
            · simpa [Ne.symm different] using ih (List.mem_cons_self ..)
            · exact ih (List.mem_cons_of_mem _ later)

theorem Bytes.split_cons {separator : UInt8} (byte : UInt8) (text : Bytes) :
    split separator (byte :: text) =
      if byte = separator then [] :: split separator text
      else extendFirst byte (split separator text) := by
  rw [split, List.foldr_cons, ← split]

theorem Bytes.split_ne_nil (separator : UInt8) (text : Bytes) : split separator text ≠ [] := by
  induction text with
  | nil => exact List.cons_ne_nil _ _
  | cons byte text ih =>
      rw [split_cons]
      split
      · exact List.cons_ne_nil _ _
      · obtain ⟨first, others, shape⟩ := List.exists_cons_of_ne_nil ih
        rw [shape, extendFirst]
        exact List.cons_ne_nil _ _

theorem Bytes.join_split (separator : UInt8) (text : Bytes) :
    join [separator] (split separator text) = text := by
  induction text with
  | nil => rfl
  | cons byte text ih =>
      obtain ⟨first, others, shape⟩ := List.exists_cons_of_ne_nil (split_ne_nil separator text)
      rw [shape] at ih
      rw [split_cons, shape]
      split
      · rename_i same
        rw [same, ← ih]
        simp [join]
      · rw [← ih]
        rfl

theorem Bytes.split_separator {separator : UInt8} (front back : Bytes) :
    split separator (front ++ separator :: back) =
      split separator front ++ split separator back := by
  induction front with
  | nil =>
      rw [List.nil_append, split_cons, if_pos rfl]
      rfl
  | cons byte front ih =>
      rw [List.cons_append, split_cons, split_cons, ih]
      split
      · rfl
      · obtain ⟨first, others, shape⟩ := List.exists_cons_of_ne_nil (split_ne_nil separator front)
        rw [shape]
        rfl

theorem Bytes.join_concat {separator part : Bytes} {parts : List Bytes} (some : parts ≠ []) :
    join separator (parts ++ [part]) = join separator parts ++ (separator ++ part) := by
  cases parts with
  | nil => contradiction
  | cons first parts => simp [join]

namespace Path

inductive Settled (rooted : Bool) : List Bytes → Prop
  | nil : Settled rooted []
  | up {below : List Bytes} : rooted = false → (∀ part ∈ below, part = parent) →
      Settled rooted (parent :: below)
  | name {part : Bytes} {below : List Bytes} : part ≠ [] → part ≠ current → part ≠ parent →
      Byte.slash ∉ part → Settled rooted below → Settled rooted (part :: below)

variable {rooted : Bool} {stack below parts : List Bytes} {part : Bytes}

theorem push_name (filled : part ≠ []) (noDot : part ≠ current) (noParent : part ≠ parent) :
    push rooted stack part = part :: stack := by
  unfold push
  rw [if_neg (by simp [filled, noDot]), if_neg noParent]

theorem Settled.tail (settled : Settled rooted (part :: below)) : Settled rooted below := by
  cases settled with
  | up relative parents =>
      cases below with
      | nil => exact .nil
      | cons top others =>
          rw [parents top (by simp)]
          exact .up relative fun other member => parents other (by simp [member])
  | name _ _ _ _ settled => exact settled

theorem Settled.push (settled : Settled rooted stack) (noSlash : Byte.slash ∉ part) :
    Settled rooted (push rooted stack part) := by
  unfold Path.push
  split
  · exact settled
  · rename_i shown
    simp only [List.isEmpty_iff, not_or] at shown
    split
    · cases settled with
      | nil =>
          cases rooted with
          | true => exact .nil
          | false => exact .up rfl (by simp)
      | up relative parents =>
          simp only [if_true]
          exact .up relative (by simpa using parents)
      | name nonempty noDot noParent inside settled =>
          simp only [if_neg noParent]
          exact settled
    · rename_i noParent
      exact .name shown.1 shown.2 noParent noSlash settled

theorem Settled.foldl (settled : Settled rooted stack)
    (noSlash : ∀ part ∈ parts, Byte.slash ∉ part) :
    Settled rooted (parts.foldl (Path.push rooted) stack) := by
  induction parts generalizing stack with
  | nil => exact settled
  | cons part parts ih =>
      exact ih (settled.push (noSlash part (by simp))) fun other member =>
        noSlash other (by simp [member])

theorem Settled.push_eq (settled : Settled rooted (part :: below)) :
    Path.push rooted below part = part :: below := by
  cases settled with
  | up relative parents =>
      unfold Path.push
      rw [if_neg (by decide), if_pos rfl, relative]
      cases below with
      | nil => rfl
      | cons top others =>
          have same := parents top (by simp)
          simp [same]
  | name nonempty noDot noParent _ _ => exact push_name nonempty noDot noParent

theorem Settled.foldl_eq (settled : Settled rooted stack) :
    stack.reverse.foldl (Path.push rooted) [] = stack := by
  induction stack with
  | nil => rfl
  | cons part below ih =>
      rw [List.reverse_cons, List.foldl_append, ih settled.tail]
      exact settled.push_eq

theorem Settled.member (settled : Settled rooted stack) (member : part ∈ stack) :
    part ≠ [] ∧ Byte.slash ∉ part := by
  induction stack with
  | nil => simp at member
  | cons top below ih =>
      rcases List.mem_cons.mp member with rfl | later
      · cases settled with
        | up _ _ => decide
        | name nonempty _ _ inside _ => exact ⟨nonempty, inside⟩
      · exact ih settled.tail later

def stackOf (rooted : Bool) (path : Bytes) : List Bytes :=
  (Path.parts path).foldl (Path.push rooted) []

theorem settled_stack (rooted : Bool) (path : Bytes) : Settled rooted (stackOf rooted path) :=
  Settled.nil.foldl fun _ => Bytes.not_mem_of_mem_split

theorem clean_eq (path : Bytes) :
    clean path = ofParts (isAbsolute path) (stackOf (isAbsolute path) path).reverse := rfl

theorem isAbsolute_of_not_mem (noSlash : Byte.slash ∉ part) : isAbsolute part = false := by
  cases part with
  | nil => rfl
  | cons byte rest =>
      have different : byte ≠ Byte.slash := fun same => noSlash (by simp [same])
      simpa [isAbsolute] using different

theorem Settled.isAbsolute_eq (settled : Settled rooted stack) :
    isAbsolute (ofParts rooted stack.reverse) = rooted := by
  cases rooted with
  | true => rfl
  | false =>
      cases shape : stack.reverse with
      | nil => rfl
      | cons first others =>
          have member : first ∈ stack := by
            rw [← List.mem_reverse, shape]
            exact List.mem_cons_self ..
          obtain ⟨nonempty, inside⟩ := settled.member member
          have relative := isAbsolute_of_not_mem inside
          cases first with
          | nil => contradiction
          | cons byte rest => simpa [isAbsolute, ofParts, Bytes.join] using relative

theorem Settled.split_join (settled : Settled rooted below) (filled : below.reverse ≠ []) :
    Bytes.split Byte.slash (Bytes.join [Byte.slash] below.reverse) = below.reverse :=
  Bytes.split_join filled fun _ member => (settled.member (List.mem_reverse.mp member)).2

theorem Settled.stack_ofParts (settled : Settled rooted below) :
    stackOf rooted (ofParts rooted below.reverse) = below := by
  have again := settled.foldl_eq
  by_cases empty : below.reverse = []
  · rw [List.reverse_eq_nil_iff.mp empty]
    cases rooted <;> rfl
  · have split := settled.split_join empty
    cases rooted with
    | true =>
        rw [stackOf, Path.parts, ofParts, if_pos rfl, Bytes.split_cons, if_pos rfl, split]
        exact again
    | false =>
        rw [stackOf, Path.parts, ofParts, if_neg (by decide), if_neg (by simpa using empty), split]
        exact again

theorem isAbsolute_clean (path : Bytes) : isAbsolute (clean path) = isAbsolute path :=
  (settled_stack _ path).isAbsolute_eq

theorem stack_clean (path : Bytes) :
    stackOf (isAbsolute path) (clean path) = stackOf (isAbsolute path) path :=
  (settled_stack _ path).stack_ofParts

theorem clean_clean (path : Bytes) : clean (clean path) = clean path := by
  rw [clean_eq (clean path), isAbsolute_clean, stack_clean, ← clean_eq]

theorem resolve_clean (path : Bytes) : resolve [] (clean path) = clean path := by
  unfold resolve join
  split
  · rfl
  · split
    · split
      · rename_i empty
        exact (List.isEmpty_iff.mp empty).symm
      · exact clean_clean path
    · rename_i filled
      exact absurd rfl filled

theorem resolve_resolve (directory path : Bytes) :
    resolve [] (resolve directory path) = resolve directory path := by
  by_cases absolute : isAbsolute path = true
  · simp [resolve, absolute]
  · rw [show resolve directory path = join directory path by simp [resolve, absolute]]
    unfold join
    split
    · split
      · rfl
      · exact resolve_clean path
    · exact resolve_clean _

theorem Settled.ofParts_ne_nil (settled : Settled rooted below) :
    ofParts rooted below.reverse ≠ [] := by
  cases rooted with
  | true => exact List.cons_ne_nil _ _
  | false =>
      cases shape : below.reverse with
      | nil => decide
      | cons first others =>
          have member : first ∈ below := by
            rw [← List.mem_reverse, shape]
            exact List.mem_cons_self ..
          simp [ofParts, Bytes.join, (settled.member member).1]

theorem clean_ne_nil (path : Bytes) : clean path ≠ [] := (settled_stack _ path).ofParts_ne_nil

section Below

variable {folder front name : Bytes}

theorem isAbsolute_append (filled : folder ≠ []) (path : Bytes) :
    isAbsolute (folder ++ path) = isAbsolute folder := by
  cases folder with
  | nil => contradiction
  | cons byte rest => rfl

theorem stackOf_below (rooted : Bool) (folder path : Bytes) :
    stackOf rooted (folder ++ Byte.slash :: path) =
      (Path.parts path).foldl (Path.push rooted) (stackOf rooted folder) := by
  rw [stackOf, Path.parts, Bytes.split_separator, List.foldl_append]
  rfl

theorem clean_below (filled : folder ≠ []) (path : Bytes) :
    clean (folder ++ Byte.slash :: path) =
      ofParts (isAbsolute folder) ((Path.parts path).foldl (Path.push (isAbsolute folder))
        (stackOf (isAbsolute folder) folder)).reverse := by
  rw [clean_eq, isAbsolute_append filled, stackOf_below]

theorem join_of_ne_nil (filled : folder ≠ []) (path : Bytes) :
    join folder path = clean (folder ++ Byte.slash :: path) := by
  rw [join, if_neg (by simpa using filled)]

theorem clean_resolve (filled : folder ≠ []) {path : Bytes} (relative : isAbsolute path = false) :
    clean (resolve folder path) = resolve folder path := by
  rw [resolve, if_neg (by simp [relative]), join_of_ne_nil filled, clean_clean]

theorem resolve_clean_directory (filled : folder ≠ []) (path : Bytes) :
    resolve (clean folder) path = resolve folder path := by
  rw [resolve, resolve, join_of_ne_nil filled, join_of_ne_nil (clean_ne_nil folder),
    clean_below filled, clean_below (clean_ne_nil folder), isAbsolute_clean, stack_clean]

theorem dropWhile_reverse (inside : Byte.slash ∉ name) (rest : Bytes) :
    (name.reverse ++ rest).dropWhile (· != Byte.slash) = rest.dropWhile (· != Byte.slash) := by
  apply List.dropWhile_append_of_pos
  intro byte member
  have different : byte ≠ Byte.slash := by
    rintro rfl
    exact inside (List.mem_reverse.mp member)
  simpa using different

theorem upToSlash_below (inside : Byte.slash ∉ name) :
    upToSlash (front ++ Byte.slash :: name) = front ++ [Byte.slash] := by
  rw [upToSlash, List.reverse_append, List.reverse_cons, List.append_assoc,
    dropWhile_reverse inside]
  simp

theorem upToSlash_name (inside : Byte.slash ∉ name) : upToSlash name = [] := by
  have passed := dropWhile_reverse inside []
  rw [List.append_nil] at passed
  rw [upToSlash, passed]
  rfl

theorem clean_slash (filled : front ≠ []) : clean (front ++ [Byte.slash]) = clean front := by
  rw [clean_below filled, clean_eq]
  rfl

theorem directory_resolve (filled : folder ≠ []) (named : name ≠ []) (noDot : name ≠ current)
    (noParent : name ≠ parent) (inside : Byte.slash ∉ name) :
    directory (resolve folder name) = clean folder := by
  have relative := isAbsolute_of_not_mem inside
  have settled := settled_stack (isAbsolute folder) folder
  have pushed : Path.push (isAbsolute folder) (stackOf (isAbsolute folder) folder) name =
      name :: stackOf (isAbsolute folder) folder := push_name named noDot noParent
  rw [resolve, relative, if_neg (by decide), join_of_ne_nil filled, clean_below filled, Path.parts,
    Bytes.split_of_not_mem inside, List.foldl_cons, List.foldl_nil, pushed, List.reverse_cons,
    clean_eq folder]
  generalize stackOf (isAbsolute folder) folder = below at settled
  generalize isAbsolute folder = rooted at settled
  by_cases top : below.reverse = []
  · rw [top, List.nil_append]
    cases rooted with
    | true =>
        have single : ofParts true [name] = [] ++ Byte.slash :: name := by
          simp [ofParts, Bytes.join]
        rw [single, directory, upToSlash_below inside]
        rfl
    | false =>
        have single : ofParts false [name] = name := by simp [ofParts, Bytes.join]
        rw [single, directory, upToSlash_name inside]
        rfl
  · have split : ofParts rooted (below.reverse ++ [name]) =
        ofParts rooted below.reverse ++ Byte.slash :: name := by
      have joined := @Bytes.join_concat [Byte.slash] name below.reverse top
      have filledBelow : below ≠ [] := by simpa using top
      cases rooted <;> simp [ofParts, filledBelow, joined]
    have again := settled.stack_ofParts
    rw [split, directory, upToSlash_below inside, clean_slash settled.ofParts_ne_nil, clean_eq,
      settled.isAbsolute_eq, again]

end Below

end Path

end DocPrologue
