import DocPrologue.Testing.Assertion
import DocPrologue.Tool.Session

/-!
Tests of the tool by its command line. A case has the arguments and the environment of a run, and
what is wanted of its failure and of its output.
-/

namespace DocPrologue.Testing

open Text (utf8 quote)

inductive Complaint where
  | invalidArguments
  | noFiles
  | missingFile
  | unknownFormat
  | helpRequested
  | versionShown
deriving DecidableEq, Repr

namespace Complaint

def message : Complaint → Bytes
  | invalidArguments => Failure.invalidArguments.message
  | noFiles => Failure.noFiles.message
  | missingFile => SystemError.absent.message
  | unknownFormat => Failure.unknownFormat.message
  | helpRequested => Failure.helpRequested.message
  | versionShown => Failure.versionShown.message

def isMade (failure : Failure) : Complaint → Bool
  | invalidArguments => failure.causes.contains .invalidArguments
  | noFiles => failure.causes.contains .noFiles
  | missingFile => failure.isMissing
  | unknownFormat => failure.causes.contains .unknownFormat
  | helpRequested => failure.causes.contains .helpRequested
  | versionShown => failure.causes.contains .versionShown

end Complaint

structure CommandCase where
  name : Bytes
  arguments : (directory : Bytes) → List Bytes
  environment : Tool.Environment
  complaint : Option Complaint
  kind : Option FailureKind
  stdout : Bytes
  silent : Bool
  inStdout : Bytes
  inStderr : Bytes

namespace CommandCase

def refusal? (case : CommandCase) : Option Failure → Option Bytes
  | none =>
    match case.complaint, case.kind with
    | some complaint, _ => some (utf8 "must fail with error: " ++ complaint.message)
    | none, some kind => some (utf8 "must fail with error type " ++ kind.name)
    | none, none => none
  | some failure =>
    match case.kind.filter fun kind => !kind.holds failure with
    | some kind =>
      some (utf8 "want error type " ++ kind.name ++ utf8 ", got " ++ kindName failure)
    | none =>
      if case.complaint.any fun complaint => !complaint.isMade failure then
        some (utf8 "got error: " ++ failure.message)
      else none

def expect (met : Bool) (expectation output : Bytes) : Messages :=
  if met then [] else [expectation ++ utf8 ", got: " ++ quote output]

def judgeOutput (case : CommandCase) (stdout stderr : Bytes) : Messages :=
  expect (!case.silent || stdout.isEmpty) (utf8 "stdout must be empty") stdout ++
  expect (!case.silent || stderr.isEmpty) (utf8 "stderr must be empty") stderr ++
  expect (case.stdout.isEmpty || stdout == case.stdout)
    (utf8 "stdout must be " ++ quote case.stdout) stdout ++
  expect (Bytes.containsText case.inStdout stdout)
    (utf8 "stdout must contain " ++ quote case.inStdout) stdout ++
  expect (Bytes.containsText case.inStderr stderr)
    (utf8 "stderr must contain " ++ quote case.inStderr) stderr

structure Verdict where
  messages : Messages
  settings : Option Tool.Settings

def judge (case : CommandCase) (session : Tool.Session) : Verdict :=
  match case.refusal? session.failure with
  | some message => ⟨[message], none⟩
  | none => ⟨case.judgeOutput session.world.stdout session.world.stderr, some session.settings⟩

def prepare (files : List (Bytes × Bytes)) (directory : Bytes) (tree : FileTree) : FileTree :=
  files.foldl (fun tree file =>
    tree.put (Path.join directory file.1) (.file file.2 FileTree.newFileMode)) tree

def run (interpreter : Interpreter) (version : Version) (directory : Bytes) (case : CommandCase)
    (tree : FileTree) : FileTree × Verdict :=
  let session := Tool.Session.run interpreter version case.environment (case.arguments directory)
    (.ofTree tree)
  (session.world.tree, case.judge session)

def namesOf (cases : List CommandCase) : List Bytes :=
  ((runCases CommandCase.name (fun _ _ tree => (tree, ())) [] cases (.empty [])).2).map (·.1)

structure Outcome where
  before : FileTree
  after : FileTree
  verdicts : List (Bytes × Verdict)

def runAll (interpreter : Interpreter) (version : Version) (files : List (Bytes × Bytes))
    (cases : List CommandCase) (tree : FileTree) : Outcome :=
  let before := (namesOf cases).foldl (fun tree directory => prepare files directory tree) tree
  let (after, verdicts) := runCases CommandCase.name (run interpreter version) [] cases before
  ⟨before, after, verdicts⟩

def Outcome.report (outcome : Outcome) : Report :=
  .ofCases (outcome.verdicts.map fun verdict => (verdict.1, verdict.2.messages))

end CommandCase

end DocPrologue.Testing
