import DocPrologue.Directories
import DocPrologue.Proofs.Denotations
import DocPrologue.Proofs.Resolution

/-!
Resolving the links of a path. The parts that are resolved already lead from directory to directory
without a link, so the resolved path comes by no link, leads where the path led, and resolves to
itself.
-/

namespace DocPrologue

theorem Path.Settled.parts_ofParts {rooted : Bool} {stack : List Bytes}
    (settled : Settled rooted stack) :
    ∃ front, (∀ part ∈ front, part = [] ∨ part = current) ∧
      parts (ofParts rooted stack.reverse) = front ++ stack.reverse := by
  by_cases empty : stack.reverse = []
  · rw [empty]
    cases rooted with
    | true => exact ⟨[[], []], by simp, rfl⟩
    | false => exact ⟨[current], by simp, rfl⟩
  · have split := settled.split_join empty
    cases rooted with
    | true =>
        refine ⟨[[]], by simp, ?_⟩
        rw [parts, ofParts, if_pos rfl, Bytes.split_cons, if_pos rfl, split]
        rfl
    | false =>
        refine ⟨[], by simp, ?_⟩
        rw [parts, ofParts, if_neg (by decide), if_neg (by simpa using empty), split]
        rfl

namespace FileTree

def startOf (tree : FileTree) (rooted : Bool) : Location := if rooted then [] else tree.here

structure Takes (tree : FileTree) (rooted : Bool) (below : List Bytes) (reached : Location)
    (part : Bytes) (node : Node) : Prop where
  named : Path.IsName part
  inside : Byte.slash ∉ part
  fits : part.length ≤ maxName
  usable : Usable (Path.ofParts rooted (part :: below).reverse)
  found : tree.lookup (reached ++ [part]) = some node

/-- Parts, innermost first, that lead from directory to directory without a link. -/
inductive Straight (tree : FileTree) (rooted : Bool) : List Bytes → Location → Prop
  | start : Straight tree rooted [] (tree.startOf rooted)
  | up {below reached} : rooted = false → (∀ part ∈ below, part = Path.parent) →
      Straight tree rooted below reached →
      Straight tree rooted (Path.parent :: below) reached.dropLast
  | down {below reached part} : tree.Takes rooted below reached part .directory →
      Straight tree rooted below reached → Straight tree rooted (part :: below) (reached ++ [part])

inductive LinkFree (tree : FileTree) (rooted : Bool) : List Bytes → Location → Node → Prop
  | directory {stack reached} : Straight tree rooted stack reached →
      LinkFree tree rooted stack reached .directory
  | file {below reached part content mode} :
      tree.Takes rooted below reached part (.file content mode) →
      Straight tree rooted below reached →
      LinkFree tree rooted (part :: below) (reached ++ [part]) (.file content mode)

section Walk

variable {tree : FileTree} {follow : Bool} {links between left : Nat}
  {location middle reached : Location} {front rest : List Bytes}

theorem Enters.trans (enters : tree.Enters links location front between middle)
    (onward : tree.Enters between middle rest left reached) :
    tree.Enters links location (front ++ rest) left reached := by
  induction enters with
  | done => exact onward
  | stay stays _ ih => exact .stay stays (ih onward)
  | up _ ih => exact .up (ih onward)
  | directory named fits found _ ih => exact .directory named fits found (ih onward)
  | link named fits found _ ih =>
      have entered := ih onward
      rw [List.append_assoc] at entered
      exact .link named fits found entered

theorem walk_link {part target : Bytes} (named : Path.IsName part) (fits : part.length ≤ maxName)
    (found : tree.lookup (location ++ [part]) = some (.link target)) :
    tree.walk true (links + 1) location (part :: rest) =
      tree.walk true links (linkStart location target) (Path.parts target ++ rest) := by
  rw [walk_name named fits, found]
  simp

theorem Enters.walk (enters : tree.Enters links location front left reached) :
    tree.walk true links location front = .ok (.taken reached .directory) := by
  induction enters with
  | done => rw [FileTree.walk]
  | stay stays _ ih => rw [walk_stay stays, ih]
  | up _ ih => rw [walk_up, ih]
  | directory named fits found _ ih =>
      rw [walk_name named fits, found]
      exact ih
  | link named fits found _ ih => rw [walk_link named fits found, ih]

theorem walk_stays (stays : ∀ part ∈ front, part = [] ∨ part = Path.current) :
    tree.walk follow links location (front ++ rest) = tree.walk follow links location rest := by
  induction front with
  | nil => rfl
  | cons part front ih =>
      rw [List.cons_append, walk_stay (stays part (by simp)),
        ih fun other member => stays other (by simp [member])]

end Walk

section Step

variable {tree : FileTree} {links : Nat} {rooted : Bool} {stack front rest : List Bytes}
  {part : Bytes}

theorem resolveParts_moves (moves : part = [] ∨ part = Path.current ∨ part = Path.parent) :
    tree.resolveParts links rooted stack (part :: rest) =
      tree.resolveParts links rooted (Path.push rooted stack part) rest := by
  rw [resolveParts, if_pos (by simpa using moves)]

theorem resolveParts_name (named : Path.IsName part) :
    tree.resolveParts links rooted stack (part :: rest) =
      match tree.node? false (Path.ofParts rooted (part :: stack).reverse) with
      | .error _ => none
      | .ok .directory => tree.resolveParts links rooted (part :: stack) rest
      | .ok (.file _ _) =>
        if rest.isEmpty then tree.resolveParts links rooted (part :: stack) rest else none
      | .ok (.link target) =>
        match links with
        | 0 => none
        | links + 1 =>
          if Path.isAbsolute target then
            tree.resolveParts links true [] (Path.parts target ++ rest)
          else tree.resolveParts links rooted stack (Path.parts target ++ rest) := by
  rw [resolveParts]
  exact if_neg (by simpa [Path.IsName] using named)

theorem resolveParts_stays (stays : ∀ part ∈ front, part = [] ∨ part = Path.current) :
    tree.resolveParts links rooted stack (front ++ rest) =
      tree.resolveParts links rooted stack rest := by
  induction front with
  | nil => rfl
  | cons part front ih =>
      have hidden := stays part (by simp)
      rw [List.cons_append, resolveParts_moves (hidden.imp_right .inl),
        Path.push_hidden (by simpa using hidden),
        ih fun other member => stays other (by simp [member])]

end Step

section Straight

variable {tree : FileTree} {links : Nat} {rooted : Bool} {stack below rest : List Bytes}
  {reached place : Location} {part : Bytes} {node : Node}

theorem Takes.settled (takes : tree.Takes rooted below reached part node)
    (settled : Path.Settled rooted below) : Path.Settled rooted (part :: below) :=
  .name takes.named.1 takes.named.2.1 takes.named.2.2 takes.inside settled

theorem Straight.settled (straight : tree.Straight rooted stack reached) :
    Path.Settled rooted stack := by
  induction straight with
  | start => exact .nil
  | up relative parents _ _ => exact .up relative parents
  | down takes _ ih => exact takes.settled ih

theorem Straight.enters (straight : tree.Straight rooted stack reached) :
    tree.Enters 0 (tree.startOf rooted) stack.reverse 0 reached := by
  induction straight with
  | start => exact .done
  | up _ _ _ ih =>
      rw [List.reverse_cons]
      exact ih.trans (.up .done)
  | down takes _ ih =>
      rw [List.reverse_cons]
      exact ih.trans (.directory takes.named takes.fits takes.found .done)

theorem Straight.node?_eq_ok_iff (straight : tree.Straight rooted stack reached)
    (named : Path.IsName part) (inside : Byte.slash ∉ part) :
    tree.node? false (Path.ofParts rooted (part :: stack).reverse) = .ok node ↔
      tree.Takes rooted stack reached part node := by
  have settled : Path.Settled rooted (part :: stack) :=
    .name named.1 named.2.1 named.2.2 inside straight.settled
  obtain ⟨front, stays, spelled⟩ := settled.parts_ofParts
  have start : tree.origin (Path.ofParts rooted (part :: stack).reverse) = tree.startOf rooted := by
    rw [origin, settled.isAbsolute_eq, startOf]
  have walked : tree.walk false maxLinks (tree.startOf rooted)
      (front ++ (part :: stack).reverse) = tree.walk false maxLinks reached [part] := by
    have enters := straight.enters.add maxLinks
    rw [Nat.zero_add] at enters
    rw [walk_stays stays, List.reverse_cons, enters.walk_append (by simp)]
  have asked : tree.node? false (Path.ofParts rooted (part :: stack).reverse) = .ok node ↔
      ∃ place, Usable (Path.ofParts rooted (part :: stack).reverse) ∧
        tree.walk false maxLinks reached [part] = .ok (.taken place node) := by
    rw [← walked, ← start, ← spelled]
    simp only [← locate_eq_ok_iff]
    unfold node?
    rcases tree.locate false (Path.ofParts rooted (part :: stack).reverse) with
      cause | ⟨place, found⟩ | ⟨place, ask⟩ <;> simp
  rw [asked]
  constructor
  · rintro ⟨place, usable, walk⟩
    by_cases fits : part.length ≤ maxName
    · rw [walk_name named fits] at walk
      refine ⟨named, inside, fits, usable, ?_⟩
      rcases found : tree.lookup (reached ++ [part]) with _ | _ | _ | target <;>
        simp_all [FileTree.walk]
    · rw [walk_long (by simpa using ⟨named.1, named.2.1⟩) named.2.2 (by omega)] at walk
      contradiction
  · intro takes
    refine ⟨reached ++ [part], takes.usable, ?_⟩
    rw [walk_name named takes.fits, takes.found]
    cases node <;> simp [FileTree.walk]

theorem Straight.takes (straight : tree.Straight rooted stack reached)
    (noSlash : ∀ other ∈ part :: rest, Byte.slash ∉ other)
    (moves : ¬(part.isEmpty ∨ part = Path.current ∨ part = Path.parent))
    (asked : tree.node? false (Path.ofParts rooted (part :: stack).reverse) = .ok node) :
    tree.Takes rooted stack reached part node ∧ ∀ other ∈ rest, Byte.slash ∉ other := by
  obtain ⟨inside, others⟩ := List.forall_mem_cons.mp noSlash
  have named : Path.IsName part := by simpa [Path.IsName] using moves
  exact ⟨(straight.node?_eq_ok_iff named inside).mp asked, others⟩

theorem Straight.push_parent (straight : tree.Straight rooted stack reached) :
    tree.Straight rooted (Path.push rooted stack Path.parent) reached.dropLast := by
  cases straight with
  | start =>
      cases rooted with
      | true => exact .start
      | false => exact .up rfl (by simp) .start
  | up relative parents straight =>
      rw [(Path.Settled.up relative (by simpa using parents)).push_eq]
      exact .up relative (by simpa using parents) (.up relative parents straight)
  | down takes straight =>
      rw [Path.push_parent_name takes.named.2.2, List.dropLast_concat]
      exact straight

theorem Straight.moves (straight : tree.Straight rooted stack reached)
    (moves : part.isEmpty ∨ part = Path.current ∨ part = Path.parent) :
    ∃ next, tree.Straight rooted (Path.push rooted stack part) next ∧ ∀ follow links rest,
      tree.walk follow links reached (part :: rest) = tree.walk follow links next rest := by
  by_cases climbs : part = Path.parent
  · subst climbs
    exact ⟨_, straight.push_parent, fun _ _ _ => walk_up⟩
  · have stays : part = [] ∨ part = Path.current := by simpa [climbs] using moves
    rw [Path.push_hidden (by simpa using stays)]
    exact ⟨reached, straight, fun _ _ _ => walk_stay stays⟩

theorem Straight.resolveParts_append (straight : tree.Straight rooted stack reached)
    (rest : List Bytes) :
    tree.resolveParts links rooted [] (stack.reverse ++ rest) =
      tree.resolveParts links rooted stack rest := by
  induction straight generalizing rest with
  | start => rfl
  | up relative parents straight ih =>
      have settled := (Straight.up relative parents straight).settled
      rw [List.reverse_cons, List.append_assoc, ih, List.singleton_append,
        resolveParts_moves (.inr (.inr rfl)), settled.push_eq]
  | down takes straight ih =>
      have asked := (straight.node?_eq_ok_iff takes.named takes.inside).mpr takes
      rw [List.reverse_cons, List.append_assoc, ih, List.singleton_append,
        resolveParts_name takes.named, asked]

end Straight

section LinkFree

variable {tree : FileTree} {links : Nat} {rooted final : Bool} {stack parts spelled : List Bytes}
  {reached place : Location} {node : Node}

theorem LinkFree.settled (free : tree.LinkFree rooted stack place node) :
    Path.Settled rooted stack := by
  cases free with
  | directory straight => exact straight.settled
  | file takes straight => exact takes.settled straight.settled

theorem LinkFree.walk (free : tree.LinkFree rooted stack place node) :
    tree.walk true 0 (tree.startOf rooted) stack.reverse = .ok (.taken place node) := by
  cases free with
  | directory straight => exact straight.enters.walk
  | file takes straight =>
      rw [List.reverse_cons, straight.enters.walk_append (by simp),
        walk_name takes.named takes.fits, takes.found]
      rfl

theorem LinkFree.resolveParts (free : tree.LinkFree rooted stack place node) :
    tree.resolveParts links rooted [] stack.reverse = some (rooted, stack.reverse) := by
  cases free with
  | directory straight =>
      rw [← List.append_nil stack.reverse, straight.resolveParts_append, FileTree.resolveParts,
        List.append_nil]
  | file takes straight =>
      have asked := (straight.node?_eq_ok_iff takes.named takes.inside).mpr takes
      rw [List.reverse_cons, straight.resolveParts_append, resolveParts_name takes.named, asked]
      simp [FileTree.resolveParts]

theorem not_mem_parts_append {target : Bytes} {rest : List Bytes}
    (noSlash : ∀ part ∈ rest, Byte.slash ∉ part) :
    ∀ part ∈ Path.parts target ++ rest, Byte.slash ∉ part :=
  List.forall_mem_append.mpr ⟨fun _ => Bytes.not_mem_of_mem_split, noSlash⟩

theorem Straight.linkFree_of_resolveParts (straight : tree.Straight rooted stack reached)
    (noSlash : ∀ part ∈ parts, Byte.slash ∉ part)
    (resolves : tree.resolveParts links rooted stack parts = some (final, spelled)) :
    ∃ resolved place node, spelled = resolved.reverse ∧
      tree.LinkFree final resolved place node ∧
      tree.walk true links reached parts = .ok (.taken place node) := by
  -- The stack stays straight; a link goes on with its target from where the target starts.
  fun_induction FileTree.resolveParts tree links rooted stack parts generalizing reached with
  | case1 links rooted stack =>
      cases resolves
      exact ⟨stack, reached, .directory, rfl, .directory straight, by rw [FileTree.walk]⟩
  | case2 links rooted stack part rest moves ih =>
      obtain ⟨-, others⟩ := List.forall_mem_cons.mp noSlash
      obtain ⟨next, onward, walks⟩ := straight.moves moves
      rw [walks]
      exact ih onward others resolves
  | case4 links rooted stack part rest moves asked ih =>
      obtain ⟨takes, others⟩ := straight.takes noSlash moves asked
      rw [walk_name takes.named takes.fits, takes.found]
      exact ih (.down takes straight) others resolves
  | case5 links rooted stack part rest moves content mode asked last ih =>
      obtain ⟨takes, -⟩ := straight.takes noSlash moves asked
      obtain rfl := List.isEmpty_iff.mp last
      rw [FileTree.resolveParts] at resolves
      cases resolves
      refine ⟨_, _, _, rfl, .file takes straight, ?_⟩
      rw [walk_name takes.named takes.fits, takes.found]
      rfl
  | case8 rooted stack part rest moves target asked links absolute ih =>
      obtain ⟨takes, others⟩ := straight.takes noSlash moves asked
      rw [walk_link takes.named takes.fits takes.found, linkStart, if_pos absolute]
      exact ih .start (not_mem_parts_append others) resolves
  | case9 rooted stack part rest moves target asked links relative ih =>
      obtain ⟨takes, others⟩ := straight.takes noSlash moves asked
      rw [walk_link takes.named takes.fits takes.found, linkStart, if_neg relative]
      exact ih straight (not_mem_parts_append others) resolves
  | _ => contradiction

end LinkFree

def Reaches (tree : FileTree) (links : Nat) (path : Bytes) (place : Location) (node : Node) :
    Prop :=
  tree.walk true links (tree.origin path) (Path.parts path) = .ok (.taken place node)

section Resolve

variable {tree : FileTree} {path resolved : Bytes}

theorem straight_origin : tree.Straight (Path.isAbsolute path) [] (tree.origin path) := .start

theorem resolveLinks_eq_some (resolves : tree.resolveLinks path = some resolved) :
    ∃ rooted stack place node, resolved = Path.ofParts rooted stack.reverse ∧
      tree.LinkFree rooted stack place node ∧ tree.Reaches maxResolvedLinks path place node := by
  obtain ⟨⟨rooted, spelled⟩, parts, rfl⟩ := Option.map_eq_some_iff.mp resolves
  obtain ⟨stack, place, node, rfl, free, walked⟩ :=
    straight_origin.linkFree_of_resolveParts (fun _ => Bytes.not_mem_of_mem_split) parts
  exact ⟨rooted, stack, place, node, rfl, free, walked⟩

theorem resolveLinks_resolved (resolves : tree.resolveLinks path = some resolved) :
    tree.resolveLinks resolved = some resolved := by
  obtain ⟨rooted, stack, place, node, rfl, free, -⟩ := resolveLinks_eq_some resolves
  obtain ⟨front, stays, spelled⟩ := free.settled.parts_ofParts
  rw [resolveLinks, free.settled.isAbsolute_eq, spelled, resolveParts_stays stays,
    free.resolveParts]
  rfl

theorem clean_resolved (resolves : tree.resolveLinks path = some resolved) :
    Path.clean resolved = resolved := by
  obtain ⟨rooted, stack, place, node, rfl, free, -⟩ := resolveLinks_eq_some resolves
  rw [Path.clean_eq, free.settled.isAbsolute_eq, free.settled.stack_ofParts]

theorem reaches_resolved (resolves : tree.resolveLinks path = some resolved) :
    ∃ place node, tree.Reaches maxResolvedLinks path place node ∧
      tree.Reaches 0 resolved place node := by
  obtain ⟨rooted, stack, place, node, rfl, free, reaches⟩ := resolveLinks_eq_some resolves
  obtain ⟨front, stays, spelled⟩ := free.settled.parts_ofParts
  refine ⟨place, node, reaches, ?_⟩
  rw [Reaches, spelled, walk_stays stays, origin, free.settled.isAbsolute_eq]
  exact free.walk

theorem LinkFree.place_eq {stack : List Bytes} {place : Location} {node : Node}
    (free : tree.LinkFree true stack place node) : place = stack.reverse := by
  have straight_place {stack reached} (straight : tree.Straight true stack reached) :
      reached = stack.reverse := by
    induction straight with
    | start => rfl
    | up relative => contradiction
    | down _ _ ih => rw [ih, List.reverse_cons]
  cases free with
  | directory straight => exact straight_place straight
  | file _ straight => rw [straight_place straight, List.reverse_cons]

/-- An entry has one absolute path without links, whatever leads to it. -/
theorem resolved_eq_of_reaches {other same : Bytes} {links fewer : Nat} {place : Location}
    {node : Node} (resolves : tree.resolveLinks path = some resolved)
    (alsoResolves : tree.resolveLinks other = some same)
    (absolute : Path.isAbsolute resolved = true) (alsoAbsolute : Path.isAbsolute same = true)
    (reaches : tree.Reaches links path place node)
    (alsoReaches : tree.Reaches fewer other place node) : resolved = same := by
  obtain ⟨rooted, stack, first, _, rfl, free, led⟩ := resolveLinks_eq_some resolves
  obtain ⟨alsoRooted, others, second, _, rfl, alsoFree, alsoLed⟩ :=
    resolveLinks_eq_some alsoResolves
  rw [free.settled.isAbsolute_eq] at absolute
  rw [alsoFree.settled.isAbsolute_eq] at alsoAbsolute
  subst absolute alsoAbsolute
  cases walk_unique led reaches
  cases walk_unique alsoLed alsoReaches
  rw [← free.place_eq, ← alsoFree.place_eq]

end Resolve

end FileTree

end DocPrologue
