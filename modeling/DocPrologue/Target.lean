import DocPrologue.Failure

/-!
Targets: files to generate. A target names its output, what goes into it and the format; its text is
either given or joined from the prologues of files.
-/

namespace DocPrologue

open Text (utf8 quote)

namespace Target

inductive Source where
  | files (paths : List Bytes)
  | text (content : Bytes)
deriving DecidableEq, Repr

end Target

structure Target where
  output : Bytes
  source : Target.Source
  format : Format
  package : Bytes
deriving DecidableEq, Repr

inductive GenerationError where
  | inclusion (error : InclusionError)
  | rendering (error : RenderError)
deriving DecidableEq, Repr

def GenerationError.toFailure : GenerationError → Failure
  | inclusion error => .ofInclusion error
  | rendering error => .ofRender error

namespace Target

def label (target : Target) : Bytes := utf8 "<target output=" ++ quote target.output ++ utf8 ">"

def inputs (target : Target) : List Bytes :=
  match target.source with
  | .files paths => paths
  | .text _ => []

def text (read : Inclusion.Reader) (target : Target) : Except InclusionError Bytes :=
  match target.source with
  | .files paths => Inclusion.collect read (paths.map (Path.resolve []))
  | .text content => .ok content

def generate (read : Inclusion.Reader) (target : Target) : Except GenerationError Bytes :=
  match target.text read with
  | .error error => .error (.inclusion error)
  | .ok text =>
    match target.format.render target.package text with
    | .error error => .error (.rendering error)
    | .ok data => .ok data

end Target

end DocPrologue
