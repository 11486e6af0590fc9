import DocPrologue.Proofs.LinkFreePaths

/-!
Paths whose links are resolved. Resolving asks for one path after the other, and each of them can be
too long although the walk along the path is not. A path is resolved if it leads to an entry and
there is room for the targets of the links on the way.
-/

namespace DocPrologue

namespace Path

def span : List Bytes → Nat
  | [] => 0
  | part :: others => part.length + 1 + span others

section Span

variable {rooted : Bool} {path part : Bytes} {first others : List Bytes}

theorem span_nil : span [] = 0 := rfl

theorem span_cons : span (part :: others) = part.length + 1 + span others := rfl

theorem span_append : span (first ++ others) = span first + span others := by
  induction first with
  | nil => rw [List.nil_append, span_nil, Nat.zero_add]
  | cons part first ih =>
      rw [List.cons_append, span_cons, span_cons, ih]
      omega

theorem span_reverse : span others.reverse = span others := by
  induction others with
  | nil => rfl
  | cons part others ih =>
      rw [List.reverse_cons, span_append, span_cons, span_cons, span_nil, ih]
      omega

theorem length_join (filled : others ≠ []) :
    (Bytes.join [Byte.slash] others).length + 1 = span others := by
  obtain ⟨part, rest, rfl⟩ := List.exists_cons_of_ne_nil filled
  have behind : (rest.flatMap fun next => [Byte.slash] ++ next).length = span rest := by
    induction rest with
    | nil => rfl
    | cons next rest ih =>
        rw [List.flatMap_cons, List.length_append, ih (by simp), span_cons]
        simp
  rw [Bytes.join, List.length_append, behind, span_cons]
  omega

theorem span_parts : span (parts path) = path.length + 1 := by
  rw [parts, ← length_join (Bytes.split_ne_nil _ _), Bytes.join_split]

theorem length_ofParts_le (filled : others ≠ []) :
    (ofParts rooted others).length ≤ span others := by
  have joined := length_join filled
  cases rooted <;> simp [ofParts, filled] <;> omega

theorem not_mem_ofParts {byte : UInt8} (noSlash : byte ≠ Byte.slash) (noDot : byte ≠ Byte.dot)
    (outside : ∀ part ∈ others, byte ∉ part) : byte ∉ ofParts rooted others := by
  have joined : byte ∉ Bytes.join [Byte.slash] others := by
    cases others with
    | nil => exact List.not_mem_nil
    | cons part rest => simpa [Bytes.join, noSlash] using outside
  unfold ofParts
  split
  · simp [noSlash, joined]
  · split
    · simp [current, noDot]
    · exact joined

theorem not_mem_part {byte : UInt8} (outside : byte ∉ path) (member : part ∈ parts path) :
    byte ∉ part := by
  rw [← Bytes.join_split Byte.slash path] at outside
  rw [parts] at member
  obtain ⟨first, others, shape⟩ := List.exists_cons_of_ne_nil (Bytes.split_ne_nil Byte.slash path)
  rw [shape, Bytes.join, List.mem_append, not_or] at outside
  rw [shape] at member
  rcases List.mem_cons.mp member with rfl | later
  · exact outside.1
  · intro inside
    exact outside.2 (List.mem_flatMap.mpr ⟨part, later, List.mem_append_right _ inside⟩)

theorem push_within (rooted : Bool) (stack : List Bytes) (part : Bytes) :
    (∀ other ∈ push rooted stack part, other = part ∨ other ∈ stack) ∧
      span (push rooted stack part) ≤ span stack + (part.length + 1) := by
  unfold push
  split
  · exact ⟨fun other => .inr, by omega⟩
  · split
    · rename_i climbs
      subst climbs
      cases stack with
      | nil => cases rooted <;> simp [span]
      | cons top below =>
          dsimp only
          split
          · simp [span]
            omega
          · refine ⟨fun other member => .inr (List.mem_cons_of_mem _ member), ?_⟩
            rw [span_cons]
            omega
    · refine ⟨fun other => List.mem_cons.mp, ?_⟩
      rw [span_cons]
      omega

end Span

end Path

namespace FileTree

def TargetsWithin (tree : FileTree) (longest : Nat) : Prop :=
  ∀ place target, tree.lookup place = some (.link target) →
    (0 : UInt8) ∉ target ∧ target.length ≤ longest

/-- The parts that are resolved and those that are left spell no path that is too long, even if
every link that may still be followed puts its target in front. -/
structure HasRoom (longest links : Nat) (stack parts : List Bytes) : Prop where
  resolved : ∀ part ∈ stack, (0 : UInt8) ∉ part
  left : ∀ part ∈ parts, (0 : UInt8) ∉ part
  short : Path.span stack + Path.span parts + links * (longest + 1) < maxPath

section Room

variable {tree : FileTree} {longest links fewer : Nat} {rooted : Bool}
  {stack kept parts rest : List Bytes} {part target : Bytes} {reached place : Location}
  {node : Node}

theorem HasRoom.push (room : HasRoom longest links stack (part :: rest)) :
    HasRoom longest links (Path.push rooted stack part) rest := by
  obtain ⟨first, left⟩ := List.forall_mem_cons.mp room.left
  obtain ⟨members, grows⟩ := Path.push_within rooted stack part
  have short := room.short
  rw [Path.span_cons] at short
  refine ⟨fun other member => ?_, left, by omega⟩
  rcases members other member with rfl | below
  · exact first
  · exact room.resolved other below

theorem HasRoom.down (room : HasRoom longest links stack (part :: rest)) :
    HasRoom longest links (part :: stack) rest := by
  obtain ⟨first, left⟩ := List.forall_mem_cons.mp room.left
  have short := room.short
  rw [Path.span_cons] at short
  refine ⟨List.forall_mem_cons.mpr ⟨first, room.resolved⟩, left, ?_⟩
  rw [Path.span_cons]
  omega

theorem HasRoom.follow (room : HasRoom longest (links + 1) stack (part :: rest))
    (noNull : (0 : UInt8) ∉ target) (short : target.length ≤ longest)
    (restart : kept = stack ∨ kept = []) :
    HasRoom longest links kept (Path.parts target ++ rest) := by
  obtain ⟨-, left⟩ := List.forall_mem_cons.mp room.left
  have parts : ∀ other ∈ Path.parts target ++ rest, (0 : UInt8) ∉ other :=
    List.forall_mem_append.mpr ⟨fun other => Path.not_mem_part noNull, left⟩
  have enough := room.short
  rw [Path.span_cons, Nat.succ_mul] at enough
  have grown : Path.span (Path.parts target ++ rest) = target.length + 1 + Path.span rest := by
    rw [Path.span_append, Path.span_parts]
  rcases restart with rfl | rfl
  · exact ⟨room.resolved, parts, by omega⟩
  · refine ⟨by simp, parts, ?_⟩
    rw [Path.span_nil]
    omega

theorem HasRoom.usable (room : HasRoom longest links stack (part :: rest))
    (settled : Path.Settled rooted (part :: stack)) :
    Usable (Path.ofParts rooted (part :: stack).reverse) := by
  obtain ⟨resolved, -, short⟩ := room.down
  have bound := @Path.length_ofParts_le rooted (part :: stack).reverse (by simp)
  rw [Path.span_reverse] at bound
  refine ⟨Path.not_mem_ofParts (by decide) (by decide) ?_, settled.ofParts_ne_nil, by omega⟩
  intro other member
  exact resolved other (List.mem_reverse.mp member)

theorem Straight.exists_takes (straight : tree.Straight rooted stack reached)
    (noSlash : ∀ other ∈ part :: rest, Byte.slash ∉ other)
    (moves : ¬(part.isEmpty ∨ part = Path.current ∨ part = Path.parent))
    (room : HasRoom longest links stack (part :: rest))
    (walked : tree.walk true links reached (part :: rest) = .ok (.taken place node)) :
    ∃ found, tree.Takes rooted stack reached part found := by
  have named : Path.IsName part := by simpa [Path.IsName] using moves
  have inside := noSlash part (by simp)
  have fits : part.length ≤ maxName := by
    refine Nat.not_lt.mp fun long => ?_
    rw [walk_long (by simpa using ⟨named.1, named.2.1⟩) named.2.2 long] at walked
    contradiction
  have settled : Path.Settled rooted (part :: stack) :=
    .name named.1 named.2.1 named.2.2 inside straight.settled
  rw [walk_name named fits] at walked
  cases found : tree.lookup (reached ++ [part]) with
  | none =>
      rw [found] at walked
      dsimp only at walked
      split at walked <;> cases walked
  | some entry => exact ⟨entry, named, inside, fits, room.usable settled, found⟩

theorem Takes.onward {spot : Spot} (takes : tree.Takes rooted stack reached part (.link target))
    (walked : tree.walk true links reached (part :: rest) = .ok spot) :
    ∃ left, links = left + 1 ∧
      tree.walk true left (linkStart reached target) (Path.parts target ++ rest) = .ok spot := by
  cases links with
  | zero =>
      rw [walk_name takes.named takes.fits, takes.found] at walked
      simp at walked
  | succ left =>
      rw [walk_link takes.named takes.fits takes.found] at walked
      exact ⟨left, rfl, walked⟩

theorem Straight.isSome_resolveParts (straight : tree.Straight rooted stack reached)
    (noSlash : ∀ part ∈ parts, Byte.slash ∉ part) (targets : tree.TargetsWithin longest)
    (room : HasRoom longest fewer stack parts) (enough : fewer ≤ links)
    (walked : tree.walk true fewer reached parts = .ok (.taken place node)) :
    (tree.resolveParts links rooted stack parts).isSome := by
  -- Room is kept for the links that the walk may still follow, which can be fewer than those that
  -- the resolving may.
  fun_induction FileTree.resolveParts tree links rooted stack parts generalizing reached fewer with
  | case1 => rfl
  | case2 links rooted stack part rest moves ih =>
      obtain ⟨-, others⟩ := List.forall_mem_cons.mp noSlash
      obtain ⟨next, onward, walks⟩ := straight.moves moves
      rw [walks] at walked
      exact ih onward others room.push enough walked
  | case3 links rooted stack part rest moves cause asked =>
      obtain ⟨found, takes⟩ := straight.exists_takes noSlash moves room walked
      have shown := (straight.node?_eq_ok_iff takes.named takes.inside).mpr takes
      rw [asked] at shown
      contradiction
  | case4 links rooted stack part rest moves asked ih =>
      obtain ⟨takes, others⟩ := straight.takes noSlash moves asked
      rw [walk_name takes.named takes.fits, takes.found] at walked
      exact ih (.down takes straight) others room.down enough walked
  | case5 links rooted stack part rest moves content mode asked last ih =>
      rw [List.isEmpty_iff.mp last, FileTree.resolveParts]
      rfl
  | case6 links rooted stack part rest moves content mode asked more =>
      obtain ⟨takes, -⟩ := straight.takes noSlash moves asked
      rw [walk_name takes.named takes.fits, takes.found] at walked
      dsimp only at walked
      rw [if_neg more] at walked
      contradiction
  | case7 rooted stack part rest moves target asked =>
      obtain ⟨takes, -⟩ := straight.takes noSlash moves asked
      obtain ⟨left, spent, -⟩ := takes.onward walked
      omega
  | case8 rooted stack part rest moves target asked links absolute ih =>
      obtain ⟨takes, others⟩ := straight.takes noSlash moves asked
      obtain ⟨left, rfl, onward⟩ := takes.onward walked
      obtain ⟨noNull, short⟩ := targets _ _ takes.found
      rw [linkStart, if_pos absolute] at onward
      exact ih .start (not_mem_parts_append others) (room.follow noNull short (.inr rfl))
        (by omega) onward
  | case9 rooted stack part rest moves target asked links relative ih =>
      obtain ⟨takes, others⟩ := straight.takes noSlash moves asked
      obtain ⟨left, rfl, onward⟩ := takes.onward walked
      obtain ⟨noNull, short⟩ := targets _ _ takes.found
      rw [linkStart, if_neg relative] at onward
      exact ih straight (not_mem_parts_append others) (room.follow noNull short (.inl rfl))
        (by omega) onward

end Room

def Resolvable (tree : FileTree) (path : Bytes) : Prop :=
  ∃ longest links place node, tree.TargetsWithin longest ∧ (0 : UInt8) ∉ path ∧
    path.length + 1 + links * (longest + 1) < maxPath ∧ links ≤ maxResolvedLinks ∧
    tree.Reaches links path place node

theorem isSome_resolveLinks {tree : FileTree} {path : Bytes} (resolvable : tree.Resolvable path) :
    (tree.resolveLinks path).isSome := by
  obtain ⟨longest, links, place, node, targets, noNull, short, enough, reaches⟩ := resolvable
  have room : HasRoom longest links [] (Path.parts path) := by
    refine ⟨by simp, fun other => Path.not_mem_part noNull, ?_⟩
    rw [Path.span_nil, Path.span_parts]
    omega
  rw [resolveLinks, Option.isSome_map]
  exact straight_origin.isSome_resolveParts (fun _ => Bytes.not_mem_of_mem_split) targets room
    enough reaches

end FileTree

end DocPrologue
