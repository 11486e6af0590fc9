import DocPrologue.Proofs.Walks

/-!
What paths denote. Following a path comes by the links at its end and stops at the place for a file.
Two paths denote one file if they come together on the way, and rewriting a file changes nothing
for the paths that do not come by it.
-/

namespace DocPrologue.FileTree

/-- Following some parts, from link to link, comes by the place of an entry or of a free name. -/
inductive ComesBy (tree : FileTree) : Location → List Bytes → Location → Prop
  | last {links start parts spot place} : tree.walk false links start parts = .ok spot →
      spot.place? = some place → ComesBy tree start parts place
  | onward {links start parts place target next} :
      tree.walk false links start parts = .ok (.taken place (.link target)) →
      ComesBy tree (linkStart place.dropLast target) (Path.parts target) next →
      ComesBy tree start parts next

section Trails

variable {tree before after : FileTree} {links left : Nat} {start place next : Location}
  {parts : List Bytes} {target text : Bytes} {spot : Spot} {mode : Nat}

theorem place?_spotAt (noDirectory : tree.lookup place ≠ some .directory) :
    (tree.spotAt place).place? = some place := by
  unfold spotAt
  rcases found : tree.lookup place with _ | _ | _ | target
  · rfl
  · exact absurd found noDirectory
  · rfl
  · rfl

theorem lookup_of_place? (spots : tree.spotAt next = spot) (isPlace : spot.place? = some place) :
    next = place ∧ tree.lookup place ≠ some .directory := by
  subst spots
  unfold spotAt at isPlace
  rcases found : tree.lookup next with _ | _ | _ | target <;> rw [found] at isPlace <;>
    cases isPlace <;> simp [found]

theorem walk_place_iff : (∃ spot, tree.walk false links start parts = .ok spot ∧
      spot.place? = some place) ↔
    (∃ left, tree.Names links start parts left place) ∧
      tree.lookup place ≠ some .directory := by
  constructor
  · rintro ⟨spot, walked, isPlace⟩
    obtain ⟨left, named, names⟩ := names_of_walk walked (by simp [isPlace])
    have ended : tree.spotAt named = spot := Except.ok.inj (names.walk_false.symm.trans walked)
    obtain ⟨rfl, noDirectory⟩ := lookup_of_place? ended isPlace
    exact ⟨⟨left, names⟩, noDirectory⟩
  · rintro ⟨⟨left, names⟩, noDirectory⟩
    exact ⟨_, names.walk_false, place?_spotAt noDirectory⟩

theorem names_of_walk_link
    (walked : tree.walk false links start parts = .ok (.taken place (.link target))) :
    (∃ left, tree.Names links start parts left place) ∧
      tree.lookup place = some (.link target) := by
  obtain ⟨⟨left, names⟩, -⟩ := walk_place_iff.mp ⟨_, walked, rfl⟩
  have ended := Except.ok.inj (names.walk_false.symm.trans walked)
  unfold spotAt at ended
  split at ended
  · cases ended
  · rename_i node found
    cases ended
    exact ⟨⟨left, names⟩, found⟩

theorem walk_file_iff :
    tree.walk true links start parts = .ok (.taken next (.file text mode)) ↔
      ∃ left place, tree.Names links start parts left place ∧
        ((tree.lookup place = some (.file text mode) ∧ next = place) ∨
          ∃ target fewer, left = fewer + 1 ∧ tree.lookup place = some (.link target) ∧
            tree.walk true fewer (linkStart place.dropLast target) (Path.parts target) =
              .ok (.taken next (.file text mode))) := by
  constructor
  · intro walked
    obtain ⟨left, place, names⟩ := names_of_walk walked rfl
    refine ⟨left, place, names, ?_⟩
    by_cases link : ∃ target, tree.lookup place = some (.link target)
    · obtain ⟨target, found⟩ := link
      cases left with
      | zero =>
          rw [names.walk_exhausted found] at walked
          contradiction
      | succ fewer =>
          rw [names.walk_onward found] at walked
          exact .inr ⟨target, fewer, rfl, found, walked⟩
    · rw [names.walk_eq fun _ target found => link ⟨target, found⟩] at walked
      unfold spotAt at walked
      split at walked
      · cases walked
      · rename_i node found
        cases walked
        exact .inl ⟨found, rfl⟩
  · rintro ⟨left, place, names, ⟨found, rfl⟩ | ⟨target, fewer, rfl, found, walked⟩⟩
    · rw [names.walk_eq (by simp [found]), spotAt, found]
    · rw [names.walk_onward found, walked]

theorem Enters.left_le {reached : Location}
    (enters : tree.Enters links start parts left reached) : left ≤ links := by
  induction enters with
  | done => omega
  | stay _ _ ih | up _ ih | directory _ _ _ _ ih | link _ _ _ _ ih => omega

theorem Names.left_le (names : tree.Names links start parts left place) : left ≤ links := by
  obtain ⟨front, name, reached, -, -, -, enters, -⟩ := names
  exact enters.left_le

theorem comesBy_of_names (names : tree.Names links start parts left place)
    (noDirectory : tree.lookup place ≠ some .directory) : tree.ComesBy start parts place := by
  obtain ⟨spot, walked, isPlace⟩ := walk_place_iff.mpr ⟨⟨left, names⟩, noDirectory⟩
  exact .last walked isPlace

def Leads (tree : FileTree) (place : Location) (spot : Spot) : Prop :=
  match tree.lookup place with
  | some (.link target) =>
    ∃ links, tree.walk true links (linkStart place.dropLast target) (Path.parts target) = .ok spot
  | _ => tree.spotAt place = spot

theorem Names.leads (names : tree.Names links start parts left place)
    (walked : tree.walk true links start parts = .ok spot) : tree.Leads place spot := by
  unfold Leads
  split
  · rename_i target found
    cases left with
    | zero =>
        rw [names.walk_exhausted found] at walked
        contradiction
    | succ left => exact ⟨left, (names.walk_onward found).symm.trans walked⟩
  · rename_i noLink
    rw [names.walk_eq fun _ => noLink] at walked
    exact Except.ok.inj walked

theorem Leads.unique {other : Spot} (leads : tree.Leads place spot)
    (again : tree.Leads place other) : spot = other := by
  unfold Leads at leads again
  split at leads
  · rename_i target found
    rw [found] at again
    obtain ⟨links, walked⟩ := leads
    obtain ⟨fewer, walkedAgain⟩ := again
    exact walk_unique walked walkedAgain
  · rename_i noLink
    split at again
    · rename_i target found
      exact absurd found (noLink target)
    · exact leads.symm.trans again

theorem ComesBy.leads (comes : tree.ComesBy start parts place)
    (walked : tree.walk true links start parts = .ok spot) : tree.Leads place spot := by
  induction comes generalizing links with
  | @last within start parts ended place stops isPlace =>
      obtain ⟨⟨left, names⟩, -⟩ := walk_place_iff.mp ⟨ended, stops, isPlace⟩
      have more := walk_add within walked
      rw [Nat.add_comm] at more
      exact (names.add links).leads more
  | @onward within start parts place target next stops _ ih =>
      obtain ⟨⟨left, names⟩, found⟩ := names_of_walk_link stops
      have more := walk_add within walked
      rw [Nat.add_comm] at more
      have leads := (names.add links).leads more
      rw [Leads, found] at leads
      obtain ⟨fewer, onward⟩ := leads
      exact ih onward

theorem comesBy_of_walk (walked : tree.walk true links start parts = .ok spot)
    (isPlace : spot.place? = some place) : tree.ComesBy start parts place := by
  induction links using Nat.strongRecOn generalizing start parts with
  | ind links ih =>
      obtain ⟨left, named, names⟩ := names_of_walk walked (by simp [isPlace])
      by_cases link : ∃ target, tree.lookup named = some (.link target)
      · obtain ⟨target, found⟩ := link
        cases left with
        | zero =>
            rw [names.walk_exhausted found] at walked
            contradiction
        | succ fewer =>
            rw [names.walk_onward found] at walked
            exact .onward (names.walk_link found) (ih fewer names.left_le walked)
      · rw [names.walk_eq fun _ target found => link ⟨target, found⟩] at walked
        obtain ⟨rfl, noDirectory⟩ := lookup_of_place? (Except.ok.inj walked) isPlace
        exact comesBy_of_names names noDirectory

theorem Rewrites.comesBy (rewrites : Rewrites before after place)
    (comes : after.ComesBy start parts next) : before.ComesBy start parts next := by
  induction comes with
  | last walked isPlace =>
      obtain ⟨⟨left, names⟩, noDirectory⟩ := walk_place_iff.mp ⟨_, walked, isPlace⟩
      exact comesBy_of_names (rewrites.names_iff.mp names) (rewrites.noDirectory noDirectory)
  | onward walked _ ih =>
      obtain ⟨⟨left, names⟩, found⟩ := names_of_walk_link walked
      have kept := rewrites.lookup_after found (by simp)
      exact .onward ((rewrites.names_iff.mp names).walk_link kept) ih

/-- A file is read as before if nothing on the way to it was rewritten. -/
theorem Rewrites.walk_file_iff (rewrites : Rewrites before after place)
    (unmet : ¬ before.ComesBy start parts place) :
    after.walk true links start parts = .ok (.taken next (.file text mode)) ↔
      before.walk true links start parts = .ok (.taken next (.file text mode)) := by
  induction links using Nat.strongRecOn generalizing start parts with
  | ind links ih =>
      rw [FileTree.walk_file_iff, FileTree.walk_file_iff]
      refine exists_congr fun left => exists_congr fun named => ?_
      rw [rewrites.names_iff]
      refine and_congr_right fun names => ?_
      have apart : named ≠ place := by
        rintro rfl
        exact unmet (comesBy_of_names names rewrites.leaf.noDirectory)
      rw [rewrites.others named apart]
      refine or_congr Iff.rfl (exists_congr fun target => exists_congr fun fewer => ?_)
      refine and_congr_right fun spent => and_congr_right fun found => ?_
      have fewerLinks : fewer < links := by
        have bound := names.left_le
        omega
      exact ih fewer fewerLinks fun comes => unmet (.onward (names.walk_link found) comes)

end Trails

def Usable (path : Bytes) : Prop := (0 : UInt8) ∉ path ∧ path ≠ [] ∧ path.length < maxPath

def origin (tree : FileTree) (path : Bytes) : Location :=
  if Path.isAbsolute path then [] else tree.here

def EntryAt (tree : FileTree) (path : Bytes) (place : Location) : Prop :=
  ∃ spot, tree.locate false path = .ok spot ∧ spot.place? = some place

def Denotes (tree : FileTree) (path : Bytes) (place : Location) : Prop :=
  Usable path ∧ tree.ComesBy (tree.origin path) (Path.parts path) place

/-- Two paths denote the same file if following them comes together. -/
def SameFile (tree : FileTree) (first second : Bytes) : Prop :=
  ∃ place, tree.Denotes first place ∧ tree.Denotes second place

theorem SameFile.symm {tree : FileTree} {first second : Bytes}
    (same : tree.SameFile first second) : tree.SameFile second first := by
  obtain ⟨place, one, two⟩ := same
  exact ⟨place, two, one⟩

section Paths

variable {tree before after : FileTree} {follow : Bool} {path first second text : Bytes}
  {place other : Location} {spot : Spot}

theorem locate_eq_ok_iff : tree.locate follow path = .ok spot ↔
    Usable path ∧
      tree.walk follow maxLinks (tree.origin path) (Path.parts path) = .ok spot := by
  by_cases null : (0 : UInt8) ∈ path
  · rw [locate, if_pos null]
    simp [Usable, null]
  · by_cases empty : path = []
    · rw [locate, if_neg null, if_pos (by simpa using empty)]
      simp [Usable, empty]
    · by_cases long : maxPath ≤ path.length
      · have overlong : ¬ path.length < maxPath := Nat.not_lt.mpr long
        rw [locate, if_neg null, if_neg (by simpa using empty), if_pos long]
        simp only [Usable, overlong, and_false, false_and, reduceCtorEq]
      · have usable : Usable path := ⟨null, empty, Nat.not_le.mp long⟩
        rw [locate, if_neg null, if_neg (by simpa using empty), if_neg long]
        simp only [usable, true_and, origin]

theorem read_eq_ok_iff : tree.read path = .ok text ↔
    ∃ place mode, tree.locate true path = .ok (.taken place (.file text mode)) := by
  unfold read node?
  rcases tree.locate true path with cause | ⟨place, _ | ⟨found, mode⟩ | target⟩ | ⟨place, ask⟩ <;>
    simp

theorem sameFile_iff {next : Spot} (located : tree.locate true first = .ok spot)
    (isPlace : spot.place? = some place) (found : tree.locate true second = .ok next)
    (isOther : next.place? = some other) : tree.SameFile first second ↔ place = other := by
  obtain ⟨usable, walked⟩ := locate_eq_ok_iff.mp located
  obtain ⟨alsoUsable, alsoWalked⟩ := locate_eq_ok_iff.mp found
  constructor
  · rintro ⟨met, one, two⟩
    have same := (one.2.leads walked).unique (two.2.leads alsoWalked)
    rw [same] at isPlace
    exact Option.some.inj (isPlace.symm.trans isOther)
  · rintro rfl
    exact ⟨place, ⟨usable, comesBy_of_walk walked isPlace⟩,
      ⟨alsoUsable, comesBy_of_walk alsoWalked isOther⟩⟩

section Refill

variable {mode newMode : Nat} {old : Bytes}

theorem locate_insert_file (found : tree.lookup place = some (.file old mode))
    (named : place ≠ []) :
    (tree.insert place (.file text newMode)).locate follow path =
      (tree.locate follow path).map (Spot.refill place (.file text newMode)) := by
  have walked := @walk_insert_file tree follow maxLinks mode newMode (tree.origin path) place
    (Path.parts path) old text found named
  unfold locate
  split
  · rfl
  · split
    · rfl
    · split
      · rfl
      · exact walked

theorem read_insert_here
    (located : tree.locate true path = .ok (.taken place (.file old mode))) :
    (tree.insert place (.file text newMode)).read path = .ok text := by
  have found := lookup_of_walk_file (locate_eq_ok_iff.mp located).2
  have named : place ≠ [] := by
    rintro rfl
    rw [lookup_nil] at found
    cases found
  rw [read, node?, locate_insert_file found named, located]
  simp [Except.map, Spot.refill]

theorem read_insert_apart (found : tree.lookup place = some (.file old mode))
    (apart : ∀ node, tree.locate true path ≠ .ok (.taken place node)) :
    (tree.insert place (.file text newMode)).read path = tree.read path := by
  have named : place ≠ [] := by
    rintro rfl
    rw [lookup_nil] at found
    cases found
  have same : (tree.locate true path).map (Spot.refill place (.file text newMode)) =
      tree.locate true path := by
    cases located : tree.locate true path with
    | error cause => rfl
    | ok spot =>
        rw [Except.map, refill_of_ne]
        rintro node rfl
        exact apart node located
  rw [read, read, node?, node?, locate_insert_file found named, same]

end Refill

theorem EntryAt.denotes (entry : tree.EntryAt path place) : tree.Denotes path place := by
  obtain ⟨spot, located, isPlace⟩ := entry
  obtain ⟨usable, walked⟩ := locate_eq_ok_iff.mp located
  exact ⟨usable, .last walked isPlace⟩

theorem entryAt_iff : tree.EntryAt path place ↔
    Usable path ∧ (∃ left, tree.Names maxLinks (tree.origin path) (Path.parts path) left place) ∧
      tree.lookup place ≠ some .directory := by
  rw [← walk_place_iff, EntryAt]
  simp only [locate_eq_ok_iff, and_assoc, exists_and_left]

theorem Rewrites.origin_eq (rewrites : Rewrites before after place) :
    after.origin path = before.origin path := by
  rw [origin, origin, rewrites.here]

theorem Rewrites.denotes (rewrites : Rewrites before after place)
    (denotes : after.Denotes path other) : before.Denotes path other :=
  ⟨denotes.1, rewrites.comesBy (rewrites.origin_eq ▸ denotes.2)⟩

theorem Rewrites.sameFile (rewrites : Rewrites before after place)
    (same : after.SameFile first second) : before.SameFile first second := by
  obtain ⟨other, one, two⟩ := same
  exact ⟨other, rewrites.denotes one, rewrites.denotes two⟩

theorem Rewrites.entryAt (rewrites : Rewrites before after place)
    (entry : after.EntryAt path other) : before.EntryAt path other := by
  rw [entryAt_iff, rewrites.origin_eq] at entry
  obtain ⟨usable, ⟨left, names⟩, noDirectory⟩ := entry
  exact entryAt_iff.mpr
    ⟨usable, ⟨left, rewrites.names_iff.mp names⟩, rewrites.noDirectory noDirectory⟩

theorem Rewrites.read_iff (rewrites : Rewrites before after place)
    (unmet : ¬ before.Denotes path place) :
    after.read path = .ok text ↔ before.read path = .ok text := by
  rw [read_eq_ok_iff, read_eq_ok_iff]
  refine exists_congr fun found => exists_congr fun mode => ?_
  rw [locate_eq_ok_iff, locate_eq_ok_iff, rewrites.origin_eq]
  refine and_congr_right fun usable => ?_
  exact rewrites.walk_file_iff fun comes => unmet ⟨usable, comes⟩

end Paths

end DocPrologue.FileTree
