import DocPrologue.Proofs.Watching
import DocPrologue.Testing.CommandCase

/-!
Verdicts on failures. A case that asks for a failure of some kind looks only at the failure that
ends the run, and not at those that caused it; an assertion on a failure looks at the whole chain.
-/

namespace DocPrologue

theorem Bytes.containsText_nil (text : Bytes) : containsText [] text = true := by
  cases text <;> rfl

theorem Failure.exists_causes (failure : Failure) : ∃ rest, failure.causes = failure :: rest := by
  cases failure <;> exact ⟨_, rfl⟩

namespace Testing

open Text (utf8)

variable {kind : FailureKind} {failure : Failure}

section Chain

theorem findIdx?_eq_zero_iff :
    failure.causes.findIdx? kind.holds = some 0 ↔ kind.holds failure = true := by
  obtain ⟨rest, shape⟩ := failure.exists_causes
  rw [shape, List.findIdx?_cons]
  cases kind.holds failure <;> simp

theorem findIdx?_isSome_iff :
    (failure.causes.findIdx? kind.holds).isSome = true ↔
      ∃ cause ∈ failure.causes, kind.holds cause = true := by
  rw [List.findIdx?_isSome, List.any_eq_true]

theorem findFailure_eq_ok_iff :
    (∃ cause, findFailure kind (some failure) = .ok cause) ↔
      ∃ cause ∈ failure.causes, kind.holds cause = true := by
  unfold findFailure
  rw [← List.find?_isSome]
  simp only [Option.map_some, Option.getD_some]
  cases failure.causes.find? kind.holds <;> simp

end Chain

namespace CommandCase

variable {case : CommandCase} {session : Tool.Session}

structure AsksOnlyFor (case : CommandCase) (kind : FailureKind) : Prop where
  kind : case.kind = some kind
  complaint : case.complaint = none
  silent : case.silent = false
  stdout : case.stdout = []
  inStdout : case.inStdout = []
  inStderr : case.inStderr = []

theorem AsksOnlyFor.judgeOutput (asks : case.AsksOnlyFor kind) (stdout stderr : Bytes) :
    case.judgeOutput stdout stderr = [] := by
  simp [CommandCase.judgeOutput, expect, asks.silent, asks.stdout, asks.inStdout, asks.inStderr,
    Bytes.containsText_nil]

theorem AsksOnlyFor.refusal? (asks : case.AsksOnlyFor kind) :
    case.refusal? (some failure) =
      if kind.holds failure then none
      else some (utf8 "want error type " ++ kind.name ++ utf8 ", got " ++ kindName failure) := by
  simp only [CommandCase.refusal?, asks.kind, asks.complaint]
  cases holds : kind.holds failure <;> simp [Option.filter, holds]

theorem AsksOnlyFor.judge (asks : case.AsksOnlyFor kind)
    (failed : session.failure = some failure) :
    case.judge session =
      if kind.holds failure then ⟨[], some session.settings⟩
      else ⟨[utf8 "want error type " ++ kind.name ++ utf8 ", got " ++ kindName failure], none⟩ := by
  rw [CommandCase.judge, failed, asks.refusal?]
  cases kind.holds failure with
  | true => simp [asks.judgeOutput]
  | false => rfl

theorem AsksOnlyFor.failed_iff (asks : case.AsksOnlyFor kind)
    (failed : session.failure = some failure) :
    (case.judge session).messages.failed = true ↔ kind.holds failure = false := by
  rw [asks.judge failed]
  cases kind.holds failure <;> simp [Messages.failed]

theorem run_snd (interpreter : Interpreter) (version : Version) (directory : Bytes)
    (case : CommandCase) (tree : FileTree) :
    (case.run interpreter version directory tree).2 = case.judge
      (.run interpreter version case.environment (case.arguments directory) (.ofTree tree)) := rfl

/-- A case that asks for a failure of one kind passes exactly if the first of the chain is of that
kind, and says what the first one is if it does not pass. So it misses the kind where it stands
only behind the first, as the assertion on the same chain does not. -/
theorem judge_kind (asks : case.AsksOnlyFor kind) (failed : session.failure = some failure) :
    let place := failure.causes.findIdx? kind.holds
    ((case.judge session).messages.failed = false ↔ place = some 0) ∧
    ((case.judge session).messages.failed = true → case.judge session =
      ⟨[utf8 "want error type " ++ kind.name ++ utf8 ", got " ++ kindName failure], none⟩) ∧
    ((case.judge session).messages.failed = true ∧
        (∃ cause ∈ failure.causes, kind.holds cause = true) ↔ ∃ outer, place = some (outer + 1)) ∧
    ((∃ cause, findFailure kind (some failure) = .ok cause) ↔
      ∃ cause ∈ failure.causes, kind.holds cause = true) := by
  intro place
  have first : place = some 0 ↔ kind.holds failure = true := findIdx?_eq_zero_iff
  have anywhere : place.isSome = true ↔ ∃ cause ∈ failure.causes, kind.holds cause = true :=
    findIdx?_isSome_iff
  refine ⟨?_, fun fails => ?_, ?_, findFailure_eq_ok_iff⟩
  · rw [← Bool.not_eq_true, asks.failed_iff failed, Bool.not_eq_false, first]
  · rw [asks.judge failed, (asks.failed_iff failed).mp fails, if_neg (by decide)]
  · rw [asks.failed_iff failed, ← anywhere, ← Bool.not_eq_true, ← first]
    rcases place with _ | _ | outer <;> simp

end CommandCase

namespace NoSuchFile

def missing : Bytes := utf8 "missing.rs"

def version : Version := .development [] [] []

def world : World := .ofTree (.empty [])

def session : Tool.Session := .run Script.interpreter version [] [missing] world

def settings : Tool.Settings := ⟨Path.current, [], [], [], [], false⟩

def unreadable : Failure := .unreadable missing ⟨.openFile, missing, .notFound⟩

def caseFor (kind : FailureKind) : CommandCase where
  name := utf8 "c"
  arguments _ := [missing]
  environment := []
  complaint := none
  kind := some kind
  stdout := []
  silent := false
  inStdout := []
  inStderr := []

theorem asksOnlyFor (kind : FailureKind) : (caseFor kind).AsksOnlyFor kind :=
  ⟨rfl, rfl, rfl, rfl, rfl, rfl⟩

theorem session_eq : session = .ended settings world (some unreadable) := by
  have parsed : ((Tool.command version).start [missing] world).arguments = .ok [missing] := by
    decide +kernel
  have settled : (Tool.Settings.ofFlags
      ((Tool.command version).start [missing] world).values).complete [] = settings := by
    decide +kernel
  have performed : Tool.Session.perform Script.interpreter settings [missing] world =
      .ended settings world (some unreadable) := by cbv
  simp only [session, Tool.Session.run, parsed, Command.start_world parsed, settled, performed]

theorem session_failure : session.failure = some unreadable := by
  rw [session_eq]
  rfl

theorem judge_kind_unreadable :
    (caseFor .unreadable).AsksOnlyFor .unreadable ∧ (caseFor .access).AsksOnlyFor .access ∧
      session.failure = some unreadable ∧
      ((caseFor .unreadable).judge session).messages.failed = false ∧
      ((caseFor .access).judge session).messages.failed = true := by
  have failed := session_failure
  have passes := (CommandCase.judge_kind (asksOnlyFor .unreadable) failed).1
  have fails := (CommandCase.judge_kind (asksOnlyFor .access) failed).2.2.1
  exact ⟨asksOnlyFor _, asksOnlyFor _, failed, passes.mpr (by decide +kernel),
    (fails.mpr ⟨0, by decide +kernel⟩).1⟩

/-- The kind that the case asks for stands in the chain, and the case does not pass. -/
theorem not_judged_by_causes :
    let case := caseFor .access
    case.AsksOnlyFor .access ∧ session.failure = some unreadable ∧
      (∃ cause ∈ unreadable.causes, FailureKind.access.holds cause = true) ∧
      (case.run Script.interpreter version [] (.empty [])).2 =
        ⟨[utf8 "want error type *fs.PathError, got *includedocs.UnreadableFileError"], none⟩ := by
  intro case
  have failed := session_failure
  refine ⟨asksOnlyFor _, failed, ⟨.access ⟨.openFile, missing, .notFound⟩, by decide +kernel, rfl⟩,
    ?_⟩
  have ran : (case.run Script.interpreter version [] (.empty [])).2 = case.judge session :=
    CommandCase.run_snd ..
  have words : utf8 "want error type " ++ FailureKind.access.name ++ utf8 ", got " ++
      kindName unreadable =
      utf8 "want error type *fs.PathError, got *includedocs.UnreadableFileError" := by
    decide +kernel
  rw [ran, (asksOnlyFor .access).judge failed, if_neg (by decide), words]

end NoSuchFile

end Testing

end DocPrologue
