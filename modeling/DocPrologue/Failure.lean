import DocPrologue.Inclusion
import DocPrologue.Format

/-!
Failures of the command. A failure may stand around another one that caused it; what a failure is
about is decided by the whole chain of its causes.
-/

namespace DocPrologue

open Text (utf8)

inductive Failure where
  | note (message : Bytes)
  | malformed (error : Malformed)
  | unreadable (path : Bytes) (cause : AccessError)
  | noFiles
  | access (error : AccessError)
  | moving (source target : Bytes) (cause : SystemError)
  | system (cause : SystemError)
  | invalidArguments
  | unknownFormat
  | helpRequested
  | versionShown
  | context (message : Bytes) (cause : Failure)
  | raised (cause : Failure)
  | reported (cause : Failure)
  | joined (first second : Failure)
deriving DecidableEq, Repr

namespace Failure

def message : Failure → Bytes
  | note message => message
  | malformed error => error.message
  | unreadable path cause => (InclusionError.unreadable path cause).message
  | noFiles => InclusionError.noFiles.message
  | access error => error.message
  | moving source target cause =>
    utf8 "rename " ++ source ++ utf8 " " ++ target ++ utf8 ": " ++ cause.message
  | system cause => cause.message
  | invalidArguments => utf8 "invalid arguments"
  | unknownFormat => utf8 "unknown format"
  | helpRequested => utf8 "flag: help requested"
  | versionShown => utf8 "version flag exit"
  | context message _ => message
  | raised cause => cause.message
  | reported cause => cause.message
  | joined first second => first.message ++ [Byte.lf] ++ second.message

def causes : Failure → List Failure
  | unreadable path cause => [unreadable path cause, access cause, system cause.cause]
  | access error => [access error, system error.cause]
  | moving source target cause => [moving source target cause, system cause]
  | versionShown => [versionShown, note versionShown.message]
  | context message cause => context message cause :: cause.causes
  | raised cause => raised cause :: cause.causes
  | reported cause => reported cause :: cause.causes
  | joined first second => joined first second :: (first.causes ++ second.causes)
  | other => [other]

def saysMissing : Failure → Bool
  | access error => error.cause.isMissing
  | moving _ _ cause => cause.isMissing
  | system cause => cause.isMissing
  | _ => false

def isMissing (failure : Failure) : Bool := failure.causes.any saysMissing

def saysReported : Failure → Bool
  | reported _ | versionShown | helpRequested => true
  | _ => false

def isPrintable (failure : Failure) : Bool := !failure.causes.any saysReported

def ofInclusion : InclusionError → Failure
  | .noFiles => noFiles
  | .unreadable path cause => unreadable path cause
  | .malformed error => malformed error

def ofRender (error : RenderError) : Failure :=
  match error with
  | .unknownName _ | .unknownFormat _ => context error.message unknownFormat
  | .invalidPackage _ => note error.message

def misuse (detail : Bytes) : Failure :=
  context (invalidArguments.message ++ utf8 ": " ++ detail) invalidArguments

end Failure

end DocPrologue
