import DocPrologue.Script.Interpreter

/-!
Programs of the small language make no target up. All values that a machine holds were answers or
were made of others, so what is true of every target that was an answer is true of all of them.
-/

namespace DocPrologue

namespace Interpreter.Course

variable {α β : Type} {possible : Item → Prop} {good : α → Prop} {fine : β → Prop}

theorem Ends.bind {course : Course α} {rest : α → Course β} (head : course.Ends possible good)
    (tail : ∀ result, good result → (rest result).Ends possible fine) :
    (course.bind rest).Ends possible fine := by
  induction course with
  | ended result => exact tail result head
  | failed failure => trivial
  | printed message next ih => exact ih head
  | called function positional keywords next ih =>
      exact fun answer isPossible => ih answer (head answer isPossible)

end Interpreter.Course

namespace Script

open Text (utf8)
open Interpreter (Item Course)

variable {α β : Type} {property : Target → Prop}

def Value.Has (property : Target → Prop) : Value → Prop
  | .target goal => property goal
  | _ => True

def Cell.Has (property : Target → Prop) : Cell → Prop
  | .list items _ | .tuple items => ∀ value ∈ items, value.Has property
  | .dict _ => True

structure Machine.Has (property : Target → Prop) (machine : Machine) : Prop where
  names : ∀ entry ∈ machine.names, entry.2.Has property
  store : ∀ cell ∈ machine.store, cell.Has property

theorem Machine.start_has : Machine.start.Has property :=
  ⟨by simp [start], by simp [start]⟩

theorem Machine.Has.set {machine : Machine} {place : Nat} {cell : Cell}
    (kept : machine.Has property) (has : cell.Has property) :
    Machine.Has property { machine with store := machine.store.set place cell } := by
  refine ⟨kept.names, ?_⟩
  intro other member
  rcases List.mem_or_eq_of_mem_set member with before | rfl
  · exact kept.store other before
  · exact has

theorem Value.item_has {value : Value} (has : value.Has property) : value.item.Has property := by
  cases value with
  | target goal => exact has
  | _ => trivial

theorem Value.ofItem_has {item : Item} (has : item.Has property) :
    (Value.ofItem item).Has property := by
  cases item with
  | target goal => exact has
  | _ => trivial

theorem Store.items?_has {store : Store} {value : Value} {items : List Value}
    (cells : ∀ cell ∈ store, cell.Has property) (found : store.items? value = some items) :
    ∀ item ∈ items, item.Has property := by
  unfold items? at found
  split at found
  · split at found
    · rename_i cell items loops place
      cases found
      exact cells _ (List.mem_of_getElem? place)
    · contradiction
  · split at found
    · rename_i cell items place
      cases found
      exact cells _ (List.mem_of_getElem? place)
    · contradiction
  · contradiction

theorem Store.view_has {store : Store} {value : Value}
    (cells : ∀ cell ∈ store, cell.Has property) (has : value.Has property) :
    (store.view value).Has property := by
  unfold view
  split
  · rename_i cell
    intro item member
    obtain ⟨held, isHeld, rfl⟩ := List.mem_map.mp member
    cases found : store.items? (.list cell) with
    | none => simp [found] at isHeld
    | some items =>
        rw [found] at isHeld
        exact Value.item_has (items?_has cells found held isHeld)
  · exact Value.item_has has

/-- From a machine whose targets all have the property, a run comes only to values that are fine and
to machines whose targets have it too. -/
def Run.Keeps (property : Target → Prop) (fine : α → Prop) (run : Run α) : Prop :=
  ∀ start : Machine, start.Has property →
    (run start).Ends (Item.Has property) fun ended => fine ended.1 ∧ ended.2.Has property

namespace Run

section Rules

variable {fine : α → Prop} {good : β → Prop}

theorem keeps_pure {value : α} (good : fine value) : Keeps property fine (pure value) :=
  fun _ has => ⟨good, has⟩

theorem keeps_fail (message : Bytes) : Keeps property fine (fail message) :=
  fun _ _ => trivial

theorem keeps_get : Keeps property (Machine.Has property) get :=
  fun _ has => ⟨has, has⟩

theorem keeps_modify {change : Machine → Machine}
    (keeps : ∀ machine : Machine, machine.Has property → (change machine).Has property) :
    Keeps property (fun _ => True) (modify change) :=
  fun start has => ⟨trivial, keeps start has⟩

theorem Keeps.bind {first : Run α} {next : α → Run β} (head : Keeps property fine first)
    (tail : ∀ value, fine value → Keeps property good (next value)) :
    Keeps property good (first >>= next) :=
  fun start has => (head start has).bind fun ended fair => tail ended.1 fair.1 ended.2 fair.2

end Rules

section Operations

theorem keeps_allocate {cell : Cell} (has : cell.Has property) :
    Keeps property (fun _ => True) (allocate cell) := by
  intro start kept
  refine ⟨trivial, kept.names, ?_⟩
  intro other member
  rcases List.mem_append.mp member with before | new
  · exact kept.store other before
  · rw [List.mem_singleton.mp new]
    exact has

theorem keeps_assign (name : Bytes) {value : Value} (has : value.Has property) :
    Keeps property (fun _ => True) (assign name value) := by
  apply keeps_modify
  intro machine kept
  refine ⟨?_, kept.store⟩
  intro entry member
  rcases List.mem_cons.mp member with rfl | later
  · exact has
  · exact kept.names entry later

theorem keeps_print (message : Bytes) : Keeps property (fun _ => True) (print message) :=
  fun _ has => ⟨trivial, has⟩

theorem predeclared?_has {name : Bytes} {value : Value}
    (declared : predeclared? name = some value) : value.Has property := by
  unfold predeclared? at declared
  split at declared
  · cases declared
    trivial
  · obtain ⟨function, -, rfl⟩ := Option.map_eq_some_iff.mp declared
    trivial

theorem keeps_lookup (name : Bytes) : Keeps property (Value.Has property) (lookup name) := by
  unfold lookup
  refine keeps_get.bind fun machine has => ?_
  split
  · rename_i value found
    obtain ⟨before, after, shape, -⟩ := List.lookup_eq_some_iff.mp found
    exact keeps_pure (has.names (name, value) (by simp [shape]))
  · split
    · rename_i value declared
      exact keeps_pure (predeclared?_has declared)
    · exact keeps_fail _

theorem keeps_items (value : Value) (refusal : Bytes) :
    Keeps property (fun items => ∀ item ∈ items, item.Has property) (items value refusal) := by
  unfold items
  refine keeps_get.bind fun machine has => ?_
  split
  · rename_i items found
    exact keeps_pure (Store.items?_has has.store found)
  · exact keeps_fail _

theorem keeps_apply (callee : Value) (positional : List Value) (keywords : List (Bytes × Value)) :
    Keeps property (Value.Has property) (apply callee positional keywords) := by
  unfold apply
  split
  · exact fun start has answer isPossible => ⟨Value.ofItem_has isPossible, has⟩
  · exact keeps_fail _

theorem keeps_addEntry (entries : List (Value × Value)) (key value : Value) :
    Keeps property (fun _ => True) (addEntry entries key value) := by
  unfold addEntry
  refine keeps_get.bind fun machine _ => ?_
  dsimp only
  split
  · exact keeps_fail _
  · split
    · exact keeps_fail _
    · exact keeps_pure trivial

theorem keeps_countLoop (change : Nat → Nat) (value : Value) :
    Keeps property (fun _ => True) (countLoop change value) := by
  unfold countLoop
  split
  · apply keeps_modify
    intro machine kept
    split
    · rename_i items loops place
      apply kept.set
      exact kept.store (.list items loops) (List.mem_of_getElem? place)
    · exact kept
  · exact keeps_pure trivial

theorem keeps_appendTo (list : Value) {value : Value} (has : value.Has property) :
    Keeps property (fun _ => True) (appendTo list value) := by
  unfold appendTo
  split
  · refine keeps_get.bind fun machine kept => ?_
    split
    · rename_i items place
      refine keeps_modify fun later keptLater => keptLater.set ?_
      intro item member
      rcases List.mem_append.mp member with before | new
      · exact kept.store _ (List.mem_of_getElem? place) item before
      · rw [List.mem_singleton.mp new]
        exact has
    · exact keeps_fail _
  · exact keeps_fail _

end Operations

end Run

open Run

mutual

theorem keeps_evaluate : (expr : Expr) → Run.Keeps property (Value.Has property) (evaluate expr)
  | .text _ | .bytes _ | .int _ | .bool _ | .none => keeps_pure trivial
  | .list items => by
    unfold evaluate
    refine (keeps_evaluateAll items).bind fun values has => ?_
    have stored : (Cell.list values 0).Has property := has
    exact (keeps_allocate stored).bind fun _ _ => keeps_pure trivial
  | .tuple items => by
    unfold evaluate
    refine (keeps_evaluateAll items).bind fun values has => ?_
    have stored : (Cell.tuple values).Has property := has
    exact (keeps_allocate stored).bind fun _ _ => keeps_pure trivial
  | .dict entries => by
    unfold evaluate
    refine (keeps_evaluateEntries entries []).bind fun entries _ => ?_
    have stored : (Cell.dict entries).Has property := trivial
    exact (keeps_allocate stored).bind fun _ _ => keeps_pure trivial
  | .name name => by
    unfold evaluate
    exact keeps_lookup name
  | .call function arguments => by
    unfold evaluate
    refine (keeps_lookup function).bind fun callee _ => ?_
    exact (keeps_evaluateArguments arguments).bind fun values _ =>
      keeps_apply callee values.1 values.2

theorem keeps_evaluateAll : (exprs : List Expr) →
    Run.Keeps property (fun values => ∀ value ∈ values, value.Has property) (evaluateAll exprs)
  | [] => keeps_pure (by simp)
  | expr :: exprs => by
    unfold evaluateAll
    refine (keeps_evaluate expr).bind fun value has => ?_
    refine (keeps_evaluateAll exprs).bind fun values others => ?_
    exact keeps_pure (List.forall_mem_cons.mpr ⟨has, others⟩)

theorem keeps_evaluateEntries : (entries : List Entry) → (done : List (Value × Value)) →
    Run.Keeps property (fun _ => True) (evaluateEntries entries done)
  | [], done => keeps_pure trivial
  | .entry key value :: rest, done => by
    unfold evaluateEntries
    refine (keeps_evaluate key).bind fun key _ => ?_
    refine (keeps_evaluate value).bind fun value _ => ?_
    exact (keeps_addEntry done key value).bind fun entries _ => keeps_evaluateEntries rest entries

theorem keeps_evaluateArguments : (arguments : List Argument) →
    Run.Keeps property (fun _ => True) (evaluateArguments arguments)
  | [] => keeps_pure trivial
  | .positional expr :: rest => by
    unfold evaluateArguments
    refine (keeps_evaluate expr).bind fun value _ => ?_
    exact (keeps_evaluateArguments rest).bind fun _ _ => keeps_pure trivial
  | .spread expr :: rest => by
    unfold evaluateArguments
    refine (keeps_evaluate expr).bind fun value _ => ?_
    refine (keeps_items _ _).bind fun items _ => ?_
    exact (keeps_evaluateArguments rest).bind fun _ _ => keeps_pure trivial
  | .keyword name expr :: rest => by
    unfold evaluateArguments
    refine (keeps_evaluate expr).bind fun value _ => ?_
    exact (keeps_evaluateArguments rest).bind fun _ _ => keeps_pure trivial

end

theorem keeps_forM {run : α → Run Unit} {fine : α → Prop} {values : List α}
    (each : ∀ value, fine value → Run.Keeps property (fun _ => True) (run value))
    (good : ∀ value ∈ values, fine value) :
    Run.Keeps property (fun _ => True) (values.forM run) := by
  induction values with
  | nil => exact keeps_pure trivial
  | cons value values ih =>
      obtain ⟨head, rest⟩ := List.forall_mem_cons.mp good
      exact (each value head).bind fun _ _ => ih rest

mutual

theorem keeps_execute : (statement : Statement) →
    Run.Keeps property (fun _ => True) (execute statement)
  | .assign name value => by
    unfold execute
    exact (keeps_evaluate value).bind fun value has => keeps_assign name has
  | .evaluate value => by
    unfold execute
    exact (keeps_evaluate value).bind fun _ _ => keeps_pure trivial
  | .print values => by
    unfold execute
    refine (keeps_evaluateAll values).bind fun values _ => ?_
    exact keeps_get.bind fun machine _ => keeps_print _
  | .append name value => by
    unfold execute
    refine (keeps_lookup name).bind fun list _ => ?_
    exact (keeps_evaluate value).bind fun value has => keeps_appendTo list has
  | .loop name items body => by
    unfold execute
    refine (keeps_evaluate items).bind fun value _ => ?_
    refine (keeps_items _ _).bind fun values has => ?_
    refine (keeps_countLoop _ _).bind fun _ _ => ?_
    refine (keeps_forM ?_ has).bind fun _ _ => keeps_countLoop _ _
    intro item itemHas
    exact (keeps_assign name itemHas).bind fun _ _ => keeps_executeAll body

theorem keeps_executeAll : (program : Program) →
    Run.Keeps property (fun _ => True) (executeAll program)
  | [] => keeps_pure trivial
  | statement :: rest => by
    unfold executeAll
    exact (keeps_execute statement).bind fun _ _ => keeps_executeAll rest

end

theorem courseOf_ends (program : Program) :
    (courseOf program).Ends (Item.Has property) fun left =>
      ∀ value, left = some value → value.Has property := by
  refine (keeps_executeAll program .start Machine.start_has).bind ?_
  rintro ⟨⟨⟩, machine⟩ ⟨-, has⟩ value left
  obtain ⟨held, named, rfl⟩ := Option.map_eq_some_iff.mp left
  obtain ⟨before, after, shape, -⟩ := List.lookup_eq_some_iff.mp named
  exact Store.view_has has.store (has.names (utf8 "targets", held) (by simp [shape]))

theorem interpreter_unforged : interpreter.Unforged := by
  intro filename source property
  unfold interpreter
  dsimp only
  split
  · trivial
  · exact courseOf_ends _

end Script

end DocPrologue
