import DocPrologue.FileTree

/-!
Walks through file trees. A walk that ends at the place for a file first enters directories and then
takes one last name. So rewriting a file, or replacing a link by one, leaves all directories where
they were: every other path keeps its place, and what it reads if it does not come by the new file.
-/

namespace DocPrologue

def Path.IsName (part : Bytes) : Prop := part ≠ [] ∧ part ≠ current ∧ part ≠ parent

theorem Path.isName_of_moves {part : Bytes} (moves : ¬(part.isEmpty ∨ part = current))
    (down : part ≠ parent) : IsName part := by
  simp only [List.isEmpty_iff, not_or] at moves
  exact ⟨moves.1, moves.2, down⟩

namespace FileTree

section Lookup

variable {tree : FileTree} {place other : Location} {node : Node}

theorem lookup_nil : tree.lookup [] = some .directory := rfl

theorem lookup_of_ne_nil (named : place ≠ []) :
    tree.lookup place = (tree.entries.find? (·.1 == place)).map (·.2) := by
  rw [lookup, if_neg (by simpa using named)]

theorem lookup_eq_none_iff (named : place ≠ []) :
    tree.lookup place = none ↔ ∀ entry ∈ tree.entries, entry.1 ≠ place := by
  rw [lookup_of_ne_nil named]
  simp

theorem lookup_erase_of_ne (different : other ≠ place) :
    (tree.erase place).lookup other = tree.lookup other := by
  by_cases root : other = []
  · rw [root, lookup_nil, lookup_nil]
  · rw [lookup_of_ne_nil root, lookup_of_ne_nil root, erase, List.find?_filter]
    congr 2
    funext entry
    by_cases same : entry.1 = other
    · simp [same, different]
    · simp [same]

theorem lookup_erase_self (named : place ≠ []) : (tree.erase place).lookup place = none := by
  rw [lookup_eq_none_iff named]
  intro entry member
  simpa [erase] using (List.mem_filter.mp member).2

theorem lookup_insert_self (named : place ≠ []) :
    (tree.insert place node).lookup place = some node := by
  have free := (@lookup_eq_none_iff (tree.erase place) place named).mp (lookup_erase_self named)
  rw [lookup_of_ne_nil named, insert, List.find?_append]
  rw [List.find?_eq_none.mpr (by simpa using free)]
  simp

theorem lookup_insert_of_ne (different : other ≠ place) :
    (tree.insert place node).lookup other = tree.lookup other := by
  by_cases root : other = []
  · rw [root, lookup_nil, lookup_nil]
  · rw [← @lookup_erase_of_ne tree place other different, lookup_of_ne_nil root,
      lookup_of_ne_nil root, insert, List.find?_append]
    simp [Ne.symm different]

theorem erase_of_free (named : place ≠ []) (free : tree.lookup place = none) :
    tree.erase place = tree := by
  have absent := (lookup_eq_none_iff named).mp free
  have kept : tree.entries.filter (·.1 != place) = tree.entries :=
    List.filter_eq_self.mpr (by simpa using absent)
  rw [erase, kept]

theorem erase_insert (named : place ≠ []) (free : tree.lookup place = none) :
    (tree.insert place node).erase place = tree := by
  have kept : tree.entries.filter (·.1 != place) = tree.entries :=
    congrArg entries (erase_of_free named free)
  simp [insert, erase, List.filter_append, kept]

theorem insert_insert {next : Node} (named : place ≠ []) (free : tree.lookup place = none) :
    (tree.insert place node).insert place next = tree.insert place next := by
  have erased := @erase_insert tree place node named free
  unfold insert at erased ⊢
  rw [erased, erase_of_free named free]

end Lookup

def linkStart (directory : Location) (target : Bytes) : Location :=
  if Path.isAbsolute target then [] else directory

section Step

variable {tree : FileTree} {follow : Bool} {links : Nat} {location : Location} {part : Bytes}
  {rest : List Bytes}

theorem walk_stay (stays : part = [] ∨ part = Path.current) :
    tree.walk follow links location (part :: rest) = tree.walk follow links location rest := by
  rw [walk, if_pos (by simpa using stays)]

theorem walk_up :
    tree.walk follow links location (Path.parent :: rest) =
      tree.walk follow links location.dropLast rest := by
  rw [walk, if_neg (by decide), if_pos rfl]

theorem walk_name (name : Path.IsName part) (short : part.length ≤ maxName) :
    tree.walk follow links location (part :: rest) =
      match tree.lookup (location ++ [part]) with
      | none =>
        if rest.all List.isEmpty then .ok (.free (location ++ [part]) (!rest.isEmpty))
        else .error .notFound
      | some .directory => tree.walk follow links (location ++ [part]) rest
      | some (.file text mode) =>
        if rest.isEmpty then .ok (.taken (location ++ [part]) (.file text mode))
        else .error .notDirectory
      | some (.link target) =>
        if rest.isEmpty ∧ ¬ follow then .ok (.taken (location ++ [part]) (.link target))
        else
          match links with
          | 0 => .error .tooManyLinks
          | links + 1 =>
            tree.walk follow links (linkStart location target) (Path.parts target ++ rest) := by
  rw [walk, if_neg (by simpa using ⟨name.1, name.2.1⟩), if_neg name.2.2, if_neg (by omega)]
  rfl

theorem walk_long (moves : ¬(part.isEmpty ∨ part = Path.current)) (down : part ≠ Path.parent)
    (long : maxName < part.length) :
    tree.walk follow links location (part :: rest) = .error .nameTooLong := by
  rw [walk, if_neg moves, if_neg down, if_pos long]

end Step

inductive Enters (tree : FileTree) : Nat → Location → List Bytes → Nat → Location → Prop
  | done {links location} : Enters tree links location [] links location
  | stay {links location part rest left reached} : part = [] ∨ part = Path.current →
      Enters tree links location rest left reached →
      Enters tree links location (part :: rest) left reached
  | up {links location rest left reached} : Enters tree links location.dropLast rest left reached →
      Enters tree links location (Path.parent :: rest) left reached
  | directory {links location part rest left reached} : Path.IsName part → part.length ≤ maxName →
      tree.lookup (location ++ [part]) = some .directory →
      Enters tree links (location ++ [part]) rest left reached →
      Enters tree links location (part :: rest) left reached
  | link {links location part rest target left reached} : Path.IsName part →
      part.length ≤ maxName → tree.lookup (location ++ [part]) = some (.link target) →
      Enters tree links (linkStart location target) (Path.parts target ++ rest) left reached →
      Enters tree (links + 1) location (part :: rest) left reached

section Enter

variable {tree : FileTree} {follow : Bool} {links left : Nat} {location reached : Location}
  {front rest : List Bytes} {spot : Spot}

theorem Enters.walk_append (enters : tree.Enters links location front left reached)
    (more : rest ≠ []) :
    tree.walk follow links location (front ++ rest) = tree.walk follow left reached rest := by
  induction enters with
  | done => rfl
  | stay stays _ ih => rw [List.cons_append, walk_stay stays, ih]
  | up _ ih => rw [List.cons_append, walk_up, ih]
  | directory name short found _ ih =>
      rw [List.cons_append, walk_name name short, found]
      exact ih
  | link name short found _ ih =>
      rw [List.cons_append, walk_name name short, found]
      simp only [List.isEmpty_iff, List.append_eq_nil_iff, more, and_false, false_and, if_false]
      rw [← List.append_assoc]
      exact ih

theorem enters_of_append (enters : tree.Enters links location (front ++ rest) left reached) :
    ∃ between middle, tree.Enters links location front between middle := by
  generalize whole : front ++ rest = parts at enters
  induction enters generalizing front with
  | done =>
      rw [(List.append_eq_nil_iff.mp whole).1]
      exact ⟨_, _, .done⟩
  | stay stays _ ih =>
      rcases List.append_eq_cons_iff.mp whole with ⟨rfl, -⟩ | ⟨front, rfl, rfl⟩
      · exact ⟨_, _, .done⟩
      · obtain ⟨between, middle, entered⟩ := ih rfl
        exact ⟨between, middle, .stay stays entered⟩
  | up _ ih =>
      rcases List.append_eq_cons_iff.mp whole with ⟨rfl, -⟩ | ⟨front, rfl, rfl⟩
      · exact ⟨_, _, .done⟩
      · obtain ⟨between, middle, entered⟩ := ih rfl
        exact ⟨between, middle, .up entered⟩
  | directory name short found _ ih =>
      rcases List.append_eq_cons_iff.mp whole with ⟨rfl, -⟩ | ⟨front, rfl, rfl⟩
      · exact ⟨_, _, .done⟩
      · obtain ⟨between, middle, entered⟩ := ih rfl
        exact ⟨between, middle, .directory name short found entered⟩
  | link name short found _ ih =>
      rcases List.append_eq_cons_iff.mp whole with ⟨rfl, -⟩ | ⟨front, rfl, rfl⟩
      · exact ⟨_, _, .done⟩
      · obtain ⟨between, middle, entered⟩ := ih (List.append_assoc ..)
        exact ⟨between, middle, .link name short found entered⟩

end Enter

def Spot.place? : Spot → Option Location
  | .taken _ .directory => none
  | .taken location _ => some location
  | .free location asDirectory => if asDirectory then none else some location

def Names (tree : FileTree) (links : Nat) (start : Location) (parts : List Bytes) (left : Nat)
    (place : Location) : Prop :=
  ∃ front name reached, parts = front ++ [name] ∧ Path.IsName name ∧ name.length ≤ maxName ∧
    tree.Enters links start front left reached ∧ place = reached ++ [name]

section Names

variable {tree : FileTree} {follow : Bool} {links left : Nat} {location place : Location}
  {part target : Bytes} {parts rest : List Bytes} {spot : Spot}

theorem Names.stay (stays : part = [] ∨ part = Path.current)
    (names : tree.Names links location rest left place) :
    tree.Names links location (part :: rest) left place := by
  obtain ⟨front, name, reached, rfl, isName, short, enters, same⟩ := names
  exact ⟨part :: front, name, reached, rfl, isName, short, .stay stays enters, same⟩

theorem Names.up (names : tree.Names links location.dropLast rest left place) :
    tree.Names links location (Path.parent :: rest) left place := by
  obtain ⟨front, name, reached, rfl, isName, short, enters, same⟩ := names
  exact ⟨Path.parent :: front, name, reached, rfl, isName, short, .up enters, same⟩

theorem Names.directory (step : Path.IsName part) (fits : part.length ≤ maxName)
    (found : tree.lookup (location ++ [part]) = some .directory)
    (names : tree.Names links (location ++ [part]) rest left place) :
    tree.Names links location (part :: rest) left place := by
  obtain ⟨front, name, reached, rfl, isName, short, enters, same⟩ := names
  exact ⟨part :: front, name, reached, rfl, isName, short, .directory step fits found enters, same⟩

theorem Names.link (step : Path.IsName part) (fits : part.length ≤ maxName)
    (found : tree.lookup (location ++ [part]) = some (.link target)) (more : rest ≠ [])
    (names : tree.Names links (linkStart location target) (Path.parts target ++ rest) left place) :
    tree.Names (links + 1) location (part :: rest) left place := by
  obtain ⟨front, name, reached, split, isName, short, enters, same⟩ := names
  obtain ⟨before, last, rfl⟩ : ∃ before last, rest = before ++ [last] :=
    ⟨_, _, (List.dropLast_concat_getLast more).symm⟩
  rw [← List.append_assoc] at split
  obtain ⟨rfl, ended⟩ := List.append_inj' split rfl
  cases ended
  exact ⟨part :: before, name, reached, rfl, isName, short, .link step fits found enters, same⟩

theorem names_last (step : Path.IsName part) (fits : part.length ≤ maxName) :
    tree.Names links location [part] links (location ++ [part]) :=
  ⟨[], part, location, rfl, step, fits, .done, rfl⟩

theorem names_of_walk (walked : tree.walk follow links location parts = .ok spot)
    (file : spot.place?.isSome) : ∃ left place, tree.Names links location parts left place := by
  fun_induction walk tree follow links location parts with
  | case1 =>
      cases walked
      contradiction
  | case2 links location part rest stays ih =>
      obtain ⟨left, place, names⟩ := ih walked
      exact ⟨left, place, names.stay (by simpa using stays)⟩
  | case3 links location rest _ ih =>
      obtain ⟨left, place, names⟩ := ih walked
      exact ⟨left, place, names.up⟩
  | case5 links location part rest moves down long free blank =>
      cases walked
      cases rest with
      | nil => exact ⟨_, _, names_last (Path.isName_of_moves moves down) (by omega)⟩
      | cons => contradiction
  | case7 links location part rest moves down long found ih =>
      obtain ⟨left, place, names⟩ := ih walked
      exact ⟨left, place, names.directory (Path.isName_of_moves moves down) (by omega) found⟩
  | case8 links location part rest moves down long text mode found last =>
      rw [List.isEmpty_iff.mp last]
      exact ⟨_, _, names_last (Path.isName_of_moves moves down) (by omega)⟩
  | case10 links location part rest moves down long target found last =>
      rw [List.isEmpty_iff.mp last.1]
      exact ⟨_, _, names_last (Path.isName_of_moves moves down) (by omega)⟩
  | case12 location part rest moves down long target found last links ih =>
      by_cases ended : rest = []
      · rw [ended]
        exact ⟨_, _, names_last (Path.isName_of_moves moves down) (by omega)⟩
      · obtain ⟨left, place, names⟩ := ih walked
        exact ⟨left, place, names.link (Path.isName_of_moves moves down) (by omega) found ended⟩
  | _ => contradiction

def spotAt (tree : FileTree) (place : Location) : Spot :=
  match tree.lookup place with
  | none => .free place false
  | some node => .taken place node

theorem Names.walk_eq (names : tree.Names links location parts left place)
    (stops : follow = true → ∀ target, tree.lookup place ≠ some (.link target)) :
    tree.walk follow links location parts = .ok (tree.spotAt place) := by
  obtain ⟨front, name, reached, rfl, isName, short, enters, rfl⟩ := names
  rw [enters.walk_append (by simp), walk_name isName short, spotAt]
  rcases found : tree.lookup (reached ++ [name]) with _ | _ | _ | target
  · rfl
  · simp [walk]
  · rfl
  · cases follow with
    | false => rfl
    | true => exact absurd found (stops rfl target)

theorem Names.walk_false (names : tree.Names links location parts left place) :
    tree.walk false links location parts = .ok (tree.spotAt place) :=
  names.walk_eq (by simp)

theorem Names.walk_link (names : tree.Names links location parts left place)
    (found : tree.lookup place = some (.link target)) :
    tree.walk false links location parts = .ok (.taken place (.link target)) := by
  rw [names.walk_false, spotAt, found]

theorem Names.walk_onward (names : tree.Names links location parts (left + 1) place)
    (found : tree.lookup place = some (.link target)) :
    tree.walk true links location parts =
      tree.walk true left (linkStart place.dropLast target) (Path.parts target) := by
  obtain ⟨front, name, reached, rfl, isName, short, enters, rfl⟩ := names
  rw [enters.walk_append (by simp), walk_name isName short, found, List.dropLast_concat]
  simp

theorem Names.walk_exhausted (names : tree.Names links location parts 0 place)
    (found : tree.lookup place = some (.link target)) :
    tree.walk true links location parts = .error .tooManyLinks := by
  obtain ⟨front, name, reached, rfl, isName, short, enters, rfl⟩ := names
  rw [enters.walk_append (by simp), walk_name isName short, found]
  simp

end Names

theorem Enters.walk_true {tree : FileTree} {first left : Nat} {location reached : Location}
    {parts : List Bytes} (enters : tree.Enters first location parts left reached) (links : Nat) :
    tree.walk true links location parts = .ok (.taken reached .directory) ∨
      tree.walk true links location parts = .error .tooManyLinks := by
  induction enters generalizing links with
  | done => simp [walk]
  | stay stays _ ih =>
      rw [walk_stay stays]
      exact ih links
  | up _ ih =>
      rw [walk_up]
      exact ih links
  | directory isName short found _ ih =>
      rw [walk_name isName short, found]
      exact ih links
  | link isName short found _ ih =>
      rw [walk_name isName short, found]
      cases links with
      | zero => simp
      | succ links => simpa using ih links

section Budget

variable {tree : FileTree} {follow : Bool} {links fewer left : Nat}
  {location reached place : Location} {parts : List Bytes} {spot next : Spot}

theorem walk_add (more : Nat) (walked : tree.walk follow links location parts = .ok spot) :
    tree.walk follow (links + more) location parts = .ok spot := by
  fun_induction walk tree follow links location parts with
  | case1 links location =>
      rw [walk]
      exact walked
  | case2 links location part rest stays ih =>
      rw [walk_stay (by simpa using stays)]
      exact ih walked
  | case3 links location rest _ ih =>
      rw [walk_up]
      exact ih walked
  | case5 links location part rest moves down long free blank =>
      rw [walk_name (Path.isName_of_moves moves down) (by omega), free]
      simpa [blank] using walked
  | case7 links location part rest moves down long found ih =>
      rw [walk_name (Path.isName_of_moves moves down) (by omega), found]
      exact ih walked
  | case8 links location part rest moves down long text mode found last =>
      rw [walk_name (Path.isName_of_moves moves down) (by omega), found]
      simpa [last] using walked
  | case10 links location part rest moves down long target found last =>
      rw [walk_name (Path.isName_of_moves moves down) (by omega), found]
      simpa [last] using walked
  | case12 location part rest moves down long target found last links ih =>
      rw [walk_name (Path.isName_of_moves moves down) (by omega), found, Nat.succ_add]
      dsimp only
      rw [if_neg last]
      exact ih walked
  | _ => contradiction

/-- Where a walk ends does not depend on how many links it may follow, unless they run out. -/
theorem walk_unique (walked : tree.walk follow links location parts = .ok spot)
    (again : tree.walk follow fewer location parts = .ok next) : spot = next := by
  have one := walk_add fewer walked
  have two := walk_add links again
  rw [Nat.add_comm] at two
  exact Except.ok.inj (one.symm.trans two)

theorem Enters.add (more : Nat) (enters : tree.Enters links location parts left reached) :
    tree.Enters (links + more) location parts (left + more) reached := by
  induction enters with
  | done => exact .done
  | stay stays _ ih => exact .stay stays ih
  | up _ ih => exact .up ih
  | directory isName short found _ ih => exact .directory isName short found ih
  | link isName short found _ ih =>
      rw [Nat.add_right_comm]
      exact .link isName short found ih

theorem Names.add (more : Nat) (names : tree.Names links location parts left place) :
    tree.Names (links + more) location parts (left + more) place := by
  obtain ⟨front, name, reached, split, isName, short, enters, same⟩ := names
  exact ⟨front, name, reached, split, isName, short, enters.add more, same⟩

end Budget

def Spot.refill (place : Location) (file : Node) : Spot → Spot
  | .taken location (.file text mode) =>
    .taken location (if location = place then file else .file text mode)
  | other => other

section Refill

variable {tree : FileTree} {follow : Bool} {links mode newMode : Nat} {location place : Location}
  {parts : List Bytes} {old text : Bytes}

theorem refill_of_ne {file : Node} {spot : Spot} (elsewhere : ∀ node, spot ≠ .taken place node) :
    spot.refill place file = spot := by
  rcases spot with ⟨location, _ | ⟨text, mode⟩ | target⟩ | ⟨location, asked⟩
  · rfl
  · have apart : location ≠ place := by
      rintro rfl
      exact elsewhere _ rfl
    rw [Spot.refill, if_neg apart]
  · rfl
  · rfl

theorem walk_insert_file (found : tree.lookup place = some (.file old mode)) (named : place ≠ []) :
    (tree.insert place (.file text newMode)).walk follow links location parts =
      (tree.walk follow links location parts).map (Spot.refill place (.file text newMode)) := by
  have here := @lookup_insert_self tree place (.file text newMode) named
  have others {other : Location} (different : tree.lookup other ≠ some (.file old mode)) :
      (tree.insert place (.file text newMode)).lookup other = tree.lookup other :=
    lookup_insert_of_ne fun same => different (same ▸ found)
  fun_induction walk tree follow links location parts with
  | case1 =>
      rw [walk]
      rfl
  | case2 links location part rest stays ih =>
      rw [walk_stay (by simpa using stays), ih]
  | case3 links location rest _ ih => rw [walk_up, ih]
  | case4 links location part rest moves down long =>
      rw [walk_long moves down long]
      rfl
  | case5 links location part rest moves down long free blank =>
      rw [walk_name (Path.isName_of_moves moves down) (by omega), others (by simp [free]), free]
      simp [blank, Spot.refill, Except.map]
  | case6 links location part rest moves down long free blank =>
      rw [walk_name (Path.isName_of_moves moves down) (by omega), others (by simp [free]), free]
      simp [blank, Except.map]
  | case7 links location part rest moves down long step ih =>
      rw [walk_name (Path.isName_of_moves moves down) (by omega), others (by simp [step]), step]
      exact ih
  | case8 links location part rest moves down long other otherMode step last =>
      rw [walk_name (Path.isName_of_moves moves down) (by omega)]
      by_cases same : location ++ [part] = place
      · rw [same, here]
        simp [last, Spot.refill, Except.map]
      · rw [lookup_insert_of_ne same, step]
        simp [last, same, Spot.refill, Except.map]
  | case9 links location part rest moves down long other otherMode step more =>
      rw [walk_name (Path.isName_of_moves moves down) (by omega)]
      by_cases same : location ++ [part] = place
      · rw [same, here]
        simp [more, Except.map]
      · rw [lookup_insert_of_ne same, step]
        simp [more, Except.map]
  | case10 links location part rest moves down long target step last =>
      rw [walk_name (Path.isName_of_moves moves down) (by omega), others (by simp [step]), step]
      simp [last, Spot.refill, Except.map]
  | case11 location part rest moves down long target step more =>
      rw [walk_name (Path.isName_of_moves moves down) (by omega), others (by simp [step]), step]
      dsimp only
      rw [if_neg more]
      rfl
  | case12 location part rest moves down long target step more links ih =>
      rw [walk_name (Path.isName_of_moves moves down) (by omega), others (by simp [step]), step]
      dsimp only
      rw [if_neg more]
      exact ih

theorem lookup_of_walk_file
    (walked : tree.walk follow links location parts = .ok (.taken place (.file text mode))) :
    tree.lookup place = some (.file text mode) := by
  fun_induction walk tree follow links location parts with
  | case2 links location part rest stays ih => exact ih walked
  | case3 links location rest _ ih => exact ih walked
  | case7 links location part rest moves down long step ih => exact ih walked
  | case8 links location part rest moves down long other otherMode step last =>
      cases walked
      exact step
  | case12 location part rest moves down long target step more links ih => exact ih walked
  | _ => cases walked

end Refill

structure Leaf (tree : FileTree) (place : Location) : Prop where
  noDirectory : tree.lookup place ≠ some .directory
  noWay : ∀ target, tree.lookup place = some (.link target) → ∀ links left reached,
    ¬ tree.Enters links (linkStart place.dropLast target) (Path.parts target) left reached

/-- Two trees that differ at one place only, a leaf of the first and a file of the second. -/
structure Rewrites (before after : FileTree) (place : Location) : Prop where
  here : after.here = before.here
  others : ∀ other, other ≠ place → after.lookup other = before.lookup other
  file : ∃ text mode, after.lookup place = some (.file text mode)
  leaf : before.Leaf place

section Rewrites

variable {before after : FileTree} {links left : Nat} {location reached place other : Location}
  {parts : List Bytes}

theorem Rewrites.lookup_after {node : Node} (rewrites : Rewrites before after place)
    (found : after.lookup other = some node) (noFile : ∀ text mode, node ≠ .file text mode) :
    before.lookup other = some node := by
  obtain ⟨text, mode, file⟩ := rewrites.file
  rw [← rewrites.others other, found]
  rintro rfl
  rw [file] at found
  cases found
  exact noFile text mode rfl

theorem Rewrites.noDirectory (rewrites : Rewrites before after place)
    (kept : after.lookup other ≠ some .directory) : before.lookup other ≠ some .directory := by
  by_cases same : other = place
  · rw [same]
    exact rewrites.leaf.noDirectory
  · rwa [← rewrites.others other same]

theorem Rewrites.enters_iff (rewrites : Rewrites before after place) :
    after.Enters links location parts left reached ↔
      before.Enters links location parts left reached := by
  constructor
  · intro enters
    induction enters with
    | done => exact .done
    | stay stays _ ih => exact .stay stays ih
    | up _ ih => exact .up ih
    | directory isName short found _ ih =>
        exact .directory isName short (rewrites.lookup_after found (by simp)) ih
    | link isName short found _ ih =>
        exact .link isName short (rewrites.lookup_after found (by simp)) ih
  · intro enters
    induction enters with
    | done => exact .done
    | stay stays _ ih => exact .stay stays ih
    | up _ ih => exact .up ih
    | directory isName short found _ ih =>
        refine .directory isName short ((rewrites.others _ ?_).trans found) ih
        rintro rfl
        exact rewrites.leaf.noDirectory found
    | link isName short found enters ih =>
        refine .link isName short ((rewrites.others _ ?_).trans found) ih
        rintro rfl
        obtain ⟨between, middle, entered⟩ := enters_of_append enters
        exact rewrites.leaf.noWay _ found _ _ _ (by rwa [List.dropLast_concat])

theorem Rewrites.names_iff (rewrites : Rewrites before after place) :
    after.Names links location parts left other ↔ before.Names links location parts left other := by
  simp only [Names, rewrites.enters_iff]

end Rewrites

end FileTree

end DocPrologue
