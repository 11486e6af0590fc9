import DocPrologue.Failure
import DocPrologue.Testing.Report

/-! Assertions: values that must be equal, and failures that must be of a kind. -/

namespace DocPrologue.Testing

open Text (utf8)

def checkEqual {α : Type} [BEq α] (got want : α) : Messages :=
  if got == want then [] else [utf8 "(-got +want):"]

inductive FailureKind where
  | malformed
  | unreadable
  | access
  | moving
  | system
  | plain
  | context
  | raised
  | reported
  | joined
deriving DecidableEq, Repr

namespace FailureKind

def name : FailureKind → Bytes
  | malformed => utf8 "*lex.MalformedError"
  | unreadable => utf8 "*includedocs.UnreadableFileError"
  | access => utf8 "*fs.PathError"
  | moving => utf8 "*os.LinkError"
  | system => utf8 "syscall.Errno"
  | plain => utf8 "*errors.errorString"
  | context => utf8 "*fmt.wrapError"
  | raised => utf8 "*starlark.EvalError"
  | reported => utf8 "*cli.unprintableError"
  | joined => utf8 "*errors.joinError"

def ofFailure : Failure → FailureKind
  | .malformed _ => malformed
  | .unreadable _ _ => unreadable
  | .access _ => access
  | .moving _ _ _ => moving
  | .system .absent | .system .present => plain
  | .system _ => system
  | .note _ | .noFiles | .invalidArguments | .unknownFormat | .helpRequested => plain
  | .context _ _ => context
  | .raised _ => raised
  | .versionShown | .reported _ => reported
  | .joined _ _ => joined

def holds (kind : FailureKind) (failure : Failure) : Bool := ofFailure failure == kind

end FailureKind

def kindName (failure : Failure) : Bytes := (FailureKind.ofFailure failure).name

def absentFailure : Bytes := utf8 "<nil>"

def findFailure (kind : FailureKind) (failure : Option Failure) : Except Bytes Failure :=
  let causes := (failure.map Failure.causes).getD []
  match causes.find? kind.holds with
  | some found => .ok found
  | none =>
    .error (utf8 "want error of type " ++ kind.name ++ utf8 ", got " ++
      (failure.map kindName).getD absentFailure ++ utf8 " (" ++
      (failure.map Failure.message).getD absentFailure ++ utf8 ")")

end DocPrologue.Testing
