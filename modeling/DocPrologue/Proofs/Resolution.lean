import DocPrologue.Proofs.Paths

/-!
Relative paths act on directories. Resolving against a directory what was resolved against an inner
one is resolving against the inner directory where the outer one puts it, so a path means the same
however often it is resolved on its way to a file. What a relative path comes to is clean, is
absolute where the directory is, and climbs only at its start.
-/

namespace DocPrologue.Path

variable {rooted : Bool} {stack below : List Bytes} {directory inner path part : Bytes}

theorem push_hidden (hidden : part.isEmpty ∨ part = current) : push rooted stack part = stack := by
  unfold push
  exact if_pos hidden

theorem push_parent_name (noParent : part ≠ parent) :
    push rooted (part :: stack) parent = stack := by
  unfold push
  rw [if_neg (by decide), if_pos rfl]
  exact if_neg noParent

/-- A part has the same effect on any stack, whether the parts before it are cleaned with it or
not. -/
theorem Settled.foldl_push (settled : Settled false below) (part : Bytes) :
    (Path.push false below part).reverse.foldl (Path.push rooted) stack =
      Path.push rooted (below.reverse.foldl (Path.push rooted) stack) part := by
  by_cases hidden : part.isEmpty ∨ part = current
  · rw [push_hidden hidden, push_hidden hidden]
  by_cases climbs : part = parent
  · subst climbs
    cases settled with
    | nil => rfl
    | up relative parents =>
        rw [(Settled.up relative (by simpa using parents)).push_eq, List.reverse_cons,
          List.foldl_append]
        rfl
    | name filled noDot noParent _ _ =>
        rw [push_parent_name noParent, List.reverse_cons, List.foldl_append, List.foldl_cons,
          List.foldl_nil, push_name filled noDot noParent, push_parent_name noParent]
  · obtain ⟨filled, noDot⟩ := not_or.mp hidden
    rw [push_name (by simpa using filled) noDot climbs, List.reverse_cons, List.foldl_append]
    rfl

theorem Settled.foldl_parts (settled : Settled false below) {parts : List Bytes}
    (noSlash : ∀ part ∈ parts, Byte.slash ∉ part) :
    (parts.foldl (Path.push false) below).reverse.foldl (Path.push rooted) stack =
      parts.foldl (Path.push rooted) (below.reverse.foldl (Path.push rooted) stack) := by
  induction parts generalizing below with
  | nil => rfl
  | cons part parts ih =>
      obtain ⟨inside, others⟩ := List.forall_mem_cons.mp noSlash
      rw [List.foldl_cons, List.foldl_cons, ih (settled.push inside) others, settled.foldl_push]

theorem foldl_clean (relative : isAbsolute path = false) :
    (parts (clean path)).foldl (push rooted) stack = (parts path).foldl (push rooted) stack := by
  have walked : (stackOf false path).reverse.foldl (push rooted) stack =
      (parts path).foldl (push rooted) stack :=
    Settled.nil.foldl_parts fun _ => Bytes.not_mem_of_mem_split
  rw [← walked, clean_eq, relative]
  by_cases empty : (stackOf false path).reverse = []
  · rw [empty]
    rfl
  · rw [ofParts, if_neg (by decide), if_neg (by simpa using empty), parts,
      (settled_stack false path).split_join empty]

theorem resolve_below (filled : directory ≠ []) (relative : isAbsolute path = false) :
    resolve directory path = clean (directory ++ Byte.slash :: path) := by
  rw [resolve, if_neg (by simp [relative]), join_of_ne_nil filled]

theorem resolve_nil (filled : path ≠ []) (relative : isAbsolute path = false) :
    resolve [] path = clean path := by
  simp [resolve, join, relative, filled]

theorem resolve_cases (directory : Bytes) (relative : isAbsolute path = false) :
    (directory = [] ∧ path = [] ∧ resolve directory path = []) ∨
      ∃ joined, isAbsolute joined = isAbsolute directory ∧
        resolve directory path = clean joined := by
  by_cases filled : directory = []
  · subst filled
    by_cases alsoFilled : path = []
    · exact .inl ⟨rfl, alsoFilled, by rw [alsoFilled]; rfl⟩
    · exact .inr ⟨path, relative, resolve_nil alsoFilled relative⟩
  · exact .inr ⟨_, isAbsolute_append filled _, resolve_below filled relative⟩

theorem isAbsolute_resolve (directory : Bytes) (relative : isAbsolute path = false) :
    isAbsolute (resolve directory path) = isAbsolute directory := by
  rcases resolve_cases directory relative with ⟨rfl, rfl, empty⟩ | ⟨joined, same, cleaned⟩
  · rw [empty]
  · rw [cleaned, isAbsolute_clean, same]

theorem resolve_eq_nil_iff (directory : Bytes) (relative : isAbsolute path = false) :
    resolve directory path = [] ↔ directory = [] ∧ path = [] := by
  constructor
  · intro empty
    rcases resolve_cases directory relative with ⟨noDirectory, noPath, -⟩ | ⟨joined, -, cleaned⟩
    · exact ⟨noDirectory, noPath⟩
    · exact absurd (cleaned.symm.trans empty) (clean_ne_nil joined)
  · rintro ⟨rfl, rfl⟩
    rfl

theorem foldl_resolve (within : isAbsolute inner = false) (relative : isAbsolute path = false) :
    (parts (resolve inner path)).foldl (push rooted) stack =
      (parts path).foldl (push rooted) ((parts inner).foldl (push rooted) stack) := by
  by_cases filled : inner = []
  · subst filled
    have stays : push rooted stack [] = stack := push_hidden (.inl rfl)
    change _ = (parts path).foldl (push rooted) (push rooted stack [])
    rw [stays]
    by_cases alsoFilled : path = []
    · rw [alsoFilled]
      rfl
    · rw [resolve_nil alsoFilled relative, foldl_clean relative]
  · have stillRelative := (isAbsolute_append filled (Byte.slash :: path)).trans within
    rw [resolve_below filled relative, foldl_clean stillRelative, parts, Bytes.split_separator,
      List.foldl_append]
    rfl

theorem resolve_assoc (directory : Bytes) (within : isAbsolute inner = false)
    (relative : isAbsolute path = false) :
    resolve directory (resolve inner path) = resolve (resolve directory inner) path := by
  by_cases filled : directory = []
  · subst filled
    rw [resolve_resolve]
    by_cases alsoFilled : inner = []
    · rw [alsoFilled]
      rfl
    · rw [resolve_nil alsoFilled within, resolve_clean_directory alsoFilled]
  · have below : directory ++ Byte.slash :: inner ≠ [] := by simp
    have stays : isAbsolute (resolve inner path) = false := by
      rw [isAbsolute_resolve inner relative, within]
    rw [resolve_below filled stays, clean_below filled, foldl_resolve within relative,
      resolve_below filled within, resolve_clean_directory below, resolve_below below relative,
      clean_below below, isAbsolute_append filled, stackOf_below]

def ClimbsFirst (path : Bytes) : Prop :=
  ∃ climbs names, parts path = List.replicate climbs parent ++ names ∧ parent ∉ names

theorem Settled.climbs_reverse (settled : Settled rooted stack) :
    ∃ climbs names, stack.reverse = List.replicate climbs parent ++ names ∧ parent ∉ names := by
  induction settled with
  | nil => exact ⟨0, [], rfl, List.not_mem_nil⟩
  | @up below _ parents =>
      refine ⟨below.length + 1, [], ?_, List.not_mem_nil⟩
      rw [List.append_nil, List.reverse_cons, List.eq_replicate_of_mem parents,
        List.reverse_replicate, List.length_replicate, List.replicate_succ']
  | @name part below _ _ noParent _ _ ih =>
      obtain ⟨climbs, names, shape, absent⟩ := ih
      refine ⟨climbs, names ++ [part], ?_, by simp [absent, Ne.symm noParent]⟩
      rw [List.reverse_cons, shape, List.append_assoc]

theorem climbsFirst_clean (relative : isAbsolute path = false) : ClimbsFirst (clean path) := by
  have settled := settled_stack false path
  rw [clean_eq, relative]
  by_cases empty : (stackOf false path).reverse = []
  · rw [empty]
    exact ⟨0, [current], rfl, by decide⟩
  · rw [ofParts, if_neg (by decide), if_neg (by simpa using empty), ClimbsFirst, parts,
      settled.split_join empty]
    exact settled.climbs_reverse

/-- Resolving is an action of the relative paths: what is resolved stays as it is, and directories
can be resolved one after the other or as one. An absolute path does not look at the directory. -/
theorem resolve_acts (directory inner path : Bytes) :
    resolve [] (resolve directory path) = resolve directory path ∧
    (isAbsolute inner = false → isAbsolute path = false →
      resolve directory (resolve inner path) = resolve (resolve directory inner) path) ∧
    (isAbsolute path = true → resolve directory path = path) ∧
    (isAbsolute path = false →
      (resolve directory path = [] ↔ directory = [] ∧ path = []) ∧
      (resolve directory path ≠ [] → clean (resolve directory path) = resolve directory path) ∧
      isAbsolute (resolve directory path) = isAbsolute directory ∧
      (isAbsolute directory = false → ClimbsFirst (resolve directory path))) := by
  refine ⟨resolve_resolve directory path, fun within relative => resolve_assoc _ within relative,
    fun absolute => if_pos absolute, fun relative => ⟨resolve_eq_nil_iff _ relative, ?_,
      isAbsolute_resolve _ relative, ?_⟩⟩
  · intro filled
    rcases resolve_cases directory relative with ⟨-, -, empty⟩ | ⟨joined, -, cleaned⟩
    · exact absurd empty filled
    · rw [cleaned, clean_clean]
  · intro outside
    rcases resolve_cases directory relative with ⟨-, -, empty⟩ | ⟨joined, same, cleaned⟩
    · rw [empty]
      exact ⟨0, [[]], rfl, by decide⟩
    · rw [cleaned]
      exact climbsFirst_clean (same.trans outside)

theorem resolve_acts_climbing :
    let directory := Text.utf8 "a//b"
    let inner := Text.utf8 ".././c"
    let path := Text.utf8 "../../../d/"
    (isAbsolute inner = false ∧ isAbsolute path = false) ∧
    resolve directory (resolve inner path) = resolve (resolve directory inner) path ∧
    clean (resolve directory path) = resolve directory path ∧
    ClimbsFirst (resolve directory path) := by
  intro directory inner path
  have within : isAbsolute inner = false := by decide
  have relative : isAbsolute path = false := by decide
  obtain ⟨-, acts, -, relatively⟩ := resolve_acts directory inner path
  obtain ⟨-, cleaned, -, climbs⟩ := relatively relative
  exact ⟨⟨within, relative⟩, acts within relative, cleaned (by decide), climbs (by decide)⟩

end DocPrologue.Path
