import DocPrologue.Builtins
import DocPrologue.Proofs.Inclusions

/-!
Answers to the calls of manifest programs. A call makes a target just if its arguments can be taken
apart, its output is named, its format is known and has the package that it needs, and it gives
either files or a text. Only an inclusion depends on files, and on none but those that it asks for.
-/

namespace DocPrologue

theorem Except.bind_eq_ok_iff {ε α β : Type} {first : Except ε α} {next : α → Except ε β}
    {result : β} :
    (first >>= next) = .ok result ↔ ∃ value, first = .ok value ∧ next value = .ok result := by
  cases first with
  | error failure => simp [Bind.bind, Except.bind]
  | ok value => simp [Bind.bind, Except.bind]

theorem Except.map_eq_ok_iff {ε α β : Type} {first : Except ε α} {change : α → β} {result : β} :
    first.map change = .ok result ↔ ∃ value, first = .ok value ∧ change value = result := by
  cases first <;> simp [Except.map]

structure Target.WellMade (directory : Bytes) (target : Target) : Prop where
  output : ∃ name, name ≠ [] ∧ target.output = Path.resolve directory name
  files : ∀ paths, target.source = .files paths →
    ∃ given, given ≠ [] ∧ paths = given.map (Path.resolve directory)
  package : target.format = .go → target.package ≠ []

namespace Interpreter

structure TargetCall where
  output : Bytes
  files : List Bytes
  text : Option Bytes
  format : Bytes
  package : Bytes

inductive GivesText : Value → Option Bytes → Prop
  | nothing : GivesText (.item .none) none
  | text (content : Bytes) : GivesText (.item (.text content)) (some content)

inductive Chooses : List Bytes → Option Bytes → Target.Source → Prop
  | files {paths : List Bytes} : paths ≠ [] → Chooses paths none (.files paths)
  | text (content : Bytes) : Chooses [] (some content) (.text content)

theorem Chooses.files_iff {paths named : List Bytes} {text : Option Bytes} :
    Chooses paths text (.files named) ↔ named = paths ∧ paths ≠ [] ∧ text = none := by
  constructor
  · rintro (filled | -)
    exact ⟨rfl, filled, rfl⟩
  · rintro ⟨rfl, filled, rfl⟩
    exact .files filled

namespace TargetCall

structure Fits (call : TargetCall) (arguments : TargetArguments) : Prop where
  output : arguments.output = call.output
  files : arguments.files = call.files.map .text
  text : GivesText arguments.text call.text
  format : arguments.format = call.format
  package : arguments.package = call.package

def SaidBy (interpreter : Interpreter) (keywords : List (Bytes × Value)) (call : TargetCall) :
    Prop :=
  ∃ assigned, interpreter.unpack .target targetParameters [] keywords = .ok assigned ∧
    call.Fits (.ofAssigned assigned)

/-- The call says all that a target needs, and the target is made of that, with its paths resolved
against the directory of the manifest. -/
structure Makes (directory : Bytes) (call : TargetCall) (target : Target) : Prop where
  named : call.output ≠ []
  output : target.output = Path.resolve directory call.output
  source : Chooses (call.files.map (Path.resolve directory)) call.text target.source
  format : Format.parse call.format = .ok target.format
  packaged : target.format = .go → call.package ≠ []
  package : target.package = call.package

end TargetCall

section Arguments

variable {directory : Bytes}

theorem texts_eq_ok_iff {refused : Nat → Bytes → Failure} {place : Nat} {items : List Item}
    {given : List Bytes} : texts refused place items = .ok given ↔ items = given.map .text := by
  fun_induction texts refused place items generalizing given with
  | case1 => cases given <;> simp
  | case2 place value items failure failed ih =>
      cases given with
      | nil => simp
      | cons first others =>
          simp only [reduceCtorEq, List.map_cons, List.cons.injEq, false_iff, not_and]
          intro _ same
          cases failed.symm.trans (ih.mpr same)
  | case3 place value items others taken ih =>
      cases given with
      | nil => simp
      | cons first rest => simp [← ih, taken]
  | case4 place item items other =>
      cases given with
      | nil => simp
      | cons first rest => simpa using fun same => absurd same (other first)

theorem targetFormat_eq_ok_iff {name package : Bytes} {format : Format} :
    targetFormat name package = .ok format ↔
      Format.parse name = .ok format ∧ (format = .go → package ≠ []) := by
  unfold targetFormat
  cases Format.parse name with
  | error error => simp
  | ok parsed =>
      dsimp only
      split
      · rename_i unpackaged
        obtain ⟨rfl, empty⟩ := unpackaged
        constructor
        · intro impossible
          cases impossible
        · rintro ⟨⟨⟩, packaged⟩
          exact absurd (List.isEmpty_iff.mp empty) (packaged rfl)
      · rename_i suitable
        simp only [List.isEmpty_iff, not_and] at suitable
        constructor
        · rintro ⟨⟩
          exact ⟨rfl, suitable⟩
        · rintro ⟨⟨⟩, -⟩
          rfl

theorem targetFiles_eq_ok_iff {files : List Item} {paths : List Bytes} :
    targetFiles directory files = .ok paths ↔
      ∃ given : List Bytes,
        files = given.map .text ∧ given.map (Path.resolve directory) = paths := by
  unfold targetFiles
  constructor
  · intro done
    split at done
    · cases done
    · rename_i given taken
      cases done
      exact ⟨given, texts_eq_ok_iff.mp taken, rfl⟩
  · rintro ⟨given, isGiven, rfl⟩
    rw [texts_eq_ok_iff.mpr isGiven]

theorem targetText_eq_ok_iff {value : Value} {text : Option Bytes} :
    targetText value = .ok text ↔ GivesText value text := by
  constructor
  · intro given
    unfold targetText at given
    split at given
    · cases given
      exact .nothing
    · cases given
      exact .text _
    · cases given
  · rintro (_ | content) <;> rfl

theorem targetSource_eq_ok_iff {paths : List Bytes} {text : Option Bytes}
    {source : Target.Source} :
    targetSource paths text = .ok source ↔ Chooses paths text source := by
  constructor
  · intro chosen
    unfold targetSource at chosen
    split at chosen
    · cases chosen
    · cases chosen
    · rename_i filled
      cases chosen
      exact .files filled
    · cases chosen
      exact .text _
  · rintro (filled | content)
    · obtain ⟨path, others, rfl⟩ := List.exists_cons_of_ne_nil filled
      rfl
    · rfl

theorem unpackFor_eq_ok_iff {interpreter : Interpreter} {function : Function}
    {parameters : List Parameter} {positional : List Value} {keywords : List (Bytes × Value)}
    {assigned : Assigned parameters} :
    interpreter.unpackFor function parameters positional keywords = .ok assigned ↔
      interpreter.unpack function parameters positional keywords = .ok assigned := by
  unfold unpackFor
  cases interpreter.unpack function parameters positional keywords with
  | error detail =>
      constructor <;>
        · intro impossible
          cases impossible
  | ok given =>
      constructor <;>
        · rintro ⟨⟩
          rfl

theorem make_eq_ok_iff {arguments : TargetArguments} {target : Target} :
    arguments.make directory = .ok target ↔
      ∃ call : TargetCall, call.Fits arguments ∧ call.Makes directory target := by
  unfold TargetArguments.make
  split
  · rename_i unnamed
    constructor
    · intro impossible
      cases impossible
    · rintro ⟨call, fits, makes⟩
      exact absurd (fits.output ▸ List.isEmpty_iff.mp unnamed) makes.named
  · rename_i named
    simp only [Except.bind_eq_ok_iff, targetFormat_eq_ok_iff, targetFiles_eq_ok_iff,
      targetText_eq_ok_iff, targetSource_eq_ok_iff]
    constructor
    · rintro ⟨format, ⟨parsed, packaged⟩, paths, ⟨given, files, rfl⟩, text, told, source, chosen,
        ⟨⟩⟩
      exact ⟨⟨arguments.output, given, text, arguments.format, arguments.package⟩,
        ⟨rfl, files, told, rfl, rfl⟩, ⟨by simpa using named, rfl, chosen, parsed, packaged, rfl⟩⟩
    · rintro ⟨call, fits, makes⟩
      obtain ⟨output, source, format, package⟩ := target
      obtain rfl : output = _ := makes.output
      obtain rfl : package = _ := makes.package
      rw [fits.format, fits.package, fits.output]
      exact ⟨format, ⟨makes.format, makes.packaged⟩, _, ⟨call.files, fits.files, rfl⟩, call.text,
        fits.text, source, makes.source, rfl⟩

end Arguments

section Answers

variable {context : Context} {function : Function} {positional : List Value}
  {keywords : List (Bytes × Value)} {other : Inclusion.Reader} {item : Item} {target : Target}

theorem makeTarget_eq_ok_iff : makeTarget context positional keywords = .ok target ↔
    positional = [] ∧ ∃ call : TargetCall, call.SaidBy context.interpreter keywords ∧
      call.Makes context.directory target := by
  unfold makeTarget
  split
  · rename_i empty
    simp only [Except.bind_eq_ok_iff, unpackFor_eq_ok_iff, make_eq_ok_iff]
    constructor
    · rintro ⟨assigned, unpacked, call, fits, makes⟩
      exact ⟨List.isEmpty_iff.mp empty, call, ⟨assigned, unpacked, fits⟩, makes⟩
    · rintro ⟨-, call, ⟨assigned, unpacked, fits⟩, makes⟩
      exact ⟨assigned, unpacked, call, fits, makes⟩
  · rename_i filled
    constructor
    · intro impossible
      cases impossible
    · rintro ⟨rfl, -⟩
      exact absurd rfl filled

theorem TargetCall.Makes.wellMade {directory : Bytes} {call : TargetCall}
    (makes : call.Makes directory target) : target.WellMade directory where
  output := ⟨call.output, makes.named, makes.output⟩
  files := by
    intro paths isFiles
    obtain ⟨rfl, filled⟩ := Chooses.files_iff.mp (isFiles ▸ makes.source)
    exact ⟨call.files, by simpa using filled.1, rfl⟩
  package isGo := makes.package ▸ makes.packaged isGo

theorem answer_wellMade (answered : (answer context function positional keywords).1 = .ok item) :
    item.Has (Target.WellMade context.directory) := by
  unfold answer at answered
  split at answered
  · obtain ⟨target, made, rfl⟩ := Except.map_eq_ok_iff.mp answered
    obtain ⟨-, call, -, makes⟩ := makeTarget_eq_ok_iff.mp made
    exact makes.wellMade
  · obtain ⟨text, -, rfl⟩ := Except.map_eq_ok_iff.mp answered
    trivial
  · split at answered
    · cases answered
    · obtain ⟨text, -, rfl⟩ := Except.map_eq_ok_iff.mp answered
      trivial
  · obtain ⟨text, -, rfl⟩ := Except.map_eq_ok_iff.mp answered
    trivial

end Answers

end Interpreter

end DocPrologue
