import DocPrologue.Proofs.Dependencies

/-!
The outputs of a manifest. No two targets of it have the same one. An output that the program names
by a relative path is cleaned when it is resolved, so no spelling of it comes twice; an absolute one
stays as the program spells it, and another spelling of the same file is taken for another file.
-/

namespace DocPrologue

def Path.IsLoose (path : Bytes) : Prop := isAbsolute path = true ∧ clean path ≠ path

theorem Target.WellMade.clean_output {filename : Bytes} {target : Target}
    (made : target.WellMade (Path.directory filename)) :
    Path.clean target.output = target.output ∨ Path.IsLoose target.output := by
  obtain ⟨given, -, resolved⟩ := made.output
  rw [resolved]
  by_cases absolute : Path.isAbsolute given = true
  · have kept : Path.resolve (Path.directory filename) given = given := if_pos absolute
    rw [kept]
    by_cases clean : Path.clean given = given
    · exact .inl clean
    · exact .inr ⟨absolute, clean⟩
  · exact .inl (Path.clean_resolve (Path.clean_ne_nil _) (by simpa using absolute))

namespace Manifest

open Interpreter (Item)

section Outputs

variable {interpreter : Interpreter} {read : Inclusion.Reader} {filename : Bytes}
  {items : List Item} {targets : List Target} {manifest : Manifest} {printed : List Bytes}

theorem outputs_of_checkTargets {place : Nat} {outputs : List Bytes}
    (checked : checkTargets filename place outputs items = .ok targets) :
    (∀ target ∈ targets, target.output ∉ outputs) ∧
      targets.Pairwise fun first second => first.output ≠ second.output := by
  induction items generalizing place outputs targets with
  | nil =>
      cases checked
      exact ⟨by simp, .nil⟩
  | cons item rest ih =>
      cases item with
      | target target =>
          change (if target.output ∈ outputs then _ else _) = _ at checked
          split at checked
          · contradiction
          · rename_i fresh
            split at checked
            · contradiction
            · rename_i others found
              cases checked
              obtain ⟨unseen, different⟩ := ih found
              refine ⟨?_, .cons ?_ different⟩
              · intro member isMember
                rcases List.mem_cons.mp isMember with rfl | later
                · exact fresh
                · exact fun seen => unseen member later (List.mem_cons_of_mem _ seen)
              · intro other member same
                exact unseen other member (same ▸ List.mem_cons_self ..)
      | _ => contradiction

/-- The targets of a manifest have different outputs. Two of them can be spellings of one path only
if one is absolute and not cleaned. -/
theorem load_outputs (unforged : interpreter.Unforged)
    (loaded : load interpreter read filename = (.ok manifest, printed)) :
    manifest.targets.Pairwise fun first second =>
      first.output ≠ second.output ∧
        (Path.clean first.output = Path.clean second.output →
          Path.IsLoose first.output ∨ Path.IsLoose second.output) := by
  have made := load_wellMade unforged loaded
  obtain ⟨source, left, visited, -, -, done⟩ := load_eq_ok_iff.mp loaded
  obtain ⟨items, -, checked, -⟩ := ofLeft_eq_ok_iff.mp done
  refine (outputs_of_checkTargets checked).2.imp_of_mem ?_
  intro first second isFirst isSecond different
  refine ⟨different, fun same => ?_⟩
  rcases (made first isFirst).clean_output with clean | loose
  · rcases (made second isSecond).clean_output with cleanToo | loose
    · rw [clean, cleanToo] at same
      exact absurd same different
    · exact .inr loose
  · exact .inl loose

end Outputs

namespace Spellings

open Text (utf8)

def name : Bytes := utf8 "m.star"

def source : Bytes := utf8 "targets = [
    target(output = \"/d/a.md\", text = \"1\"),
    target(output = \"/d//a.md\", text = \"2\"),
]
"

def files (path : Bytes) : Except AccessError Bytes :=
  if path = name then .ok source else .error ⟨.openFile, path, .notFound⟩

def manifest : Manifest :=
  ⟨[⟨utf8 "/d/a.md", .text (utf8 "1"), .raw, []⟩, ⟨utf8 "/d//a.md", .text (utf8 "2"), .raw, []⟩],
    [name]⟩

theorem load_manifest : load Script.interpreter files name = (.ok manifest, []) := by
  decide +kernel

theorem load_outputs_manifest :
    load Script.interpreter files name = (.ok manifest, []) ∧
      manifest.targets.Pairwise fun first second =>
        first.output ≠ second.output ∧
          (Path.clean first.output = Path.clean second.output →
            Path.IsLoose first.output ∨ Path.IsLoose second.output) :=
  ⟨load_manifest, load_outputs Script.interpreter_unforged load_manifest⟩

/-- Both targets are to be written to one file. -/
theorem not_outputs_unique :
    (load Script.interpreter files name).1 = .ok manifest ∧
      ¬ manifest.targets.Pairwise fun first second =>
        Path.clean first.output ≠ Path.clean second.output := by
  refine ⟨congrArg Prod.fst load_manifest, ?_⟩
  decide +kernel

end Spellings

end Manifest

end DocPrologue
