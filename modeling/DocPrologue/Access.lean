import DocPrologue.Text.Utf8

/-! Refused accesses to files: what was tried on which path, and why it was refused. -/

namespace DocPrologue

open Text (utf8)

inductive SystemError where
  | notFound
  | isDirectory
  | notDirectory
  | invalidArgument
  | nameTooLong
  | tooManyLinks
  | alreadyExists
  | absent
  | present
  | other (message : Bytes)
deriving DecidableEq, Repr

namespace SystemError

def message : SystemError → Bytes
  | notFound => utf8 "no such file or directory"
  | isDirectory => utf8 "is a directory"
  | notDirectory => utf8 "not a directory"
  | invalidArgument => utf8 "invalid argument"
  | nameTooLong => utf8 "file name too long"
  | tooManyLinks => utf8 "too many levels of symbolic links"
  | alreadyExists => utf8 "file exists"
  | absent => utf8 "file does not exist"
  | present => utf8 "file already exists"
  | other message => message

def isMissing (error : SystemError) : Bool := error == notFound || error == absent

end SystemError

inductive Action where
  | openFile
  | readFile
  | makeDirectory
  | createTemp
  | writeFile
  | changeMode
  | closeFile
deriving DecidableEq, Repr

def Action.name : Action → Bytes
  | openFile => utf8 "open"
  | readFile => utf8 "read"
  | makeDirectory => utf8 "mkdir"
  | createTemp => utf8 "createtemp"
  | writeFile => utf8 "write"
  | changeMode => utf8 "chmod"
  | closeFile => utf8 "close"

structure AccessError where
  action : Action
  path : Bytes
  cause : SystemError
deriving DecidableEq, Repr

def AccessError.message (error : AccessError) : Bytes :=
  error.action.name ++ utf8 " " ++ error.path ++ utf8 ": " ++ error.cause.message

end DocPrologue
