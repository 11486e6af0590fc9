import DocPrologue.Builtins

/-!
Manifests: files whose program leaves a list of targets behind. A manifest depends on its own file,
on every file that the program asked for, and on the files of its targets.
-/

namespace DocPrologue

open Text (utf8 decimal)
open Interpreter (Item Value)

structure Manifest where
  targets : List Target
  inputs : List Bytes
deriving DecidableEq, Repr

namespace Manifest

def refusal (filename detail : Bytes) : Failure := .note (filename ++ utf8 ": " ++ detail)

def targetItems (filename : Bytes) : Option Value → Except Failure (List Item)
  | some (.list []) => .error (refusal filename (utf8 "targets must not be empty"))
  | some (.list items) => .ok items
  | _ => .error (refusal filename (utf8 "targets must be defined and be a list"))

/-- Checks that items are targets with different outputs. `place` items were checked before, and
`outputs` are theirs. -/
def checkTargets (filename : Bytes) (place : Nat) (outputs : List Bytes) :
    List Item → Except Failure (List Target)
  | [] => .ok []
  | .target target :: rest =>
    if target.output ∈ outputs then
      .error (refusal filename (utf8 "output " ++ target.output ++
        utf8 " is generated by more than one target"))
    else
      match checkTargets filename (place + 1) (target.output :: outputs) rest with
      | .error failure => .error failure
      | .ok targets => .ok (target :: targets)
  | item :: _ =>
    .error (refusal filename (utf8 "targets[" ++ decimal place ++ utf8 "] must be a target, got " ++
      item.typeName))

def ofLeft (filename : Bytes) (left : Option Value) (visited : List Bytes) :
    Except Failure Manifest :=
  match targetItems filename left with
  | .error failure => .error failure
  | .ok items =>
    match checkTargets filename 0 [] items with
    | .error failure => .error failure
    | .ok targets =>
      .ok ⟨targets, Bytes.sortUnique (filename :: visited ++ targets.flatMap Target.inputs)⟩

def load (interpreter : Interpreter) (read : Inclusion.Reader) (filename : Bytes) :
    Except Failure Manifest × List Bytes :=
  match read filename with
  | .error error => (.error (.access error), [])
  | .ok source =>
    let run := (interpreter.course filename source).run
      ⟨interpreter, Path.directory filename, read⟩
    match run.result with
    | .error failure => (.error failure, run.printed)
    | .ok left => (ofLeft filename left run.visited, run.printed)

end Manifest

end DocPrologue
