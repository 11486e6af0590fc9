import DocPrologue.Interpreter
import DocPrologue.Text.Decimal

/-!
What a manifest program can call: the function that makes targets and those that look at
documentation. Only an inclusion reads files, and every path that it asks for is recorded before any
file is read. The first call that fails ends the program; what was printed and asked for until then
is kept.
-/

namespace DocPrologue.Interpreter

open Text (utf8 quote decimal)

structure Context where
  interpreter : Interpreter
  directory : Bytes
  read : Inclusion.Reader

def Context.reading (context : Context) (read : Inclusion.Reader) : Context :=
  { context with read := read }

def complaint (function : Function) (detail : Bytes) : Bytes :=
  function.name ++ utf8 ": " ++ detail

def refusal (function : Function) (detail : Bytes) : Failure := .note (complaint function detail)

def unpackFor (interpreter : Interpreter) (function : Function) (parameters : List Parameter)
    (positional : List Value) (keywords : List (Bytes × Value)) :
    Except Failure (Assigned parameters) :=
  (interpreter.unpack function parameters positional keywords).mapError .note

def refuseKeywords (function : Function) (keywords : List (Bytes × Value)) : Except Failure Unit :=
  if keywords.isEmpty then .ok ()
  else .error (refusal function (utf8 "unexpected keyword arguments"))

def texts (refused : (place : Nat) → (found : Bytes) → Failure) :
    (place : Nat) → List Item → Except Failure (List Bytes)
  | _, [] => .ok []
  | place, .text value :: items =>
    match texts refused (place + 1) items with
    | .error failure => .error failure
    | .ok others => .ok (value :: others)
  | place, item :: _ => .error (refused place item.typeName)

def textArguments (function : Function) (values : List Value) : Except Failure (List Bytes) :=
  texts (fun place found => refusal function (utf8 "argument " ++ decimal place ++
    utf8 " must be a string, got " ++ found)) 1 (values.map Value.closed)

def targetParameters : List Parameter :=
  [⟨utf8 "output", .text, true⟩, ⟨utf8 "files", .list, false⟩, ⟨utf8 "text", .any, false⟩,
    ⟨utf8 "format", .text, false⟩, ⟨utf8 "package", .text, false⟩]

def targetFormat (name package : Bytes) : Except Failure Format :=
  match Format.parse name with
  | .error error => .error (.context (complaint .target error.message) .unknownFormat)
  | .ok format =>
    if format = .go ∧ package.isEmpty then
      .error (refusal .target (utf8 "package is required for format " ++ quote Format.go.name))
    else .ok format

def targetFiles (directory : Bytes) (files : List Item) : Except Failure (List Bytes) :=
  match texts (fun place found => refusal .target (utf8 "files[" ++ decimal place ++
      utf8 "] must be a string, got " ++ found)) 0 files with
  | .error failure => .error failure
  | .ok paths => .ok (paths.map (Path.resolve directory))

def targetText : Value → Except Failure (Option Bytes)
  | .item .none => .ok none
  | .item (.text value) => .ok (some value)
  | value => .error (refusal .target (utf8 "text must be a string, got " ++ value.typeName))

def targetSource (paths : List Bytes) (text : Option Bytes) : Except Failure Target.Source :=
  match text, paths with
  | none, [] => .error (refusal .target (utf8 "one of files or text is required"))
  | some _, _ :: _ => .error (refusal .target (utf8 "only one of files or text may be set"))
  | none, paths => .ok (.files paths)
  | some text, [] => .ok (.text text)

structure TargetArguments where
  output : Bytes
  files : List Item
  text : Value
  format : Bytes
  package : Bytes

def TargetArguments.ofAssigned : Assigned targetParameters → TargetArguments
  | (output, files, text, format, package, ()) =>
    ⟨output.getD [], files.getD [], text.getD (.item .none), format.getD [], package.getD []⟩

def TargetArguments.make (directory : Bytes) (arguments : TargetArguments) :
    Except Failure Target :=
  if arguments.output.isEmpty then .error (refusal .target (utf8 "output must not be empty"))
  else do
    let format ← targetFormat arguments.format arguments.package
    let paths ← targetFiles directory arguments.files
    let text ← targetText arguments.text
    let source ← targetSource paths text
    return ⟨Path.resolve directory arguments.output, source, format, arguments.package⟩

def makeTarget (context : Context) (positional : List Value) (keywords : List (Bytes × Value)) :
    Except Failure Target :=
  if positional.isEmpty then do
    let assigned ← context.interpreter.unpackFor .target targetParameters [] keywords
    (TargetArguments.ofAssigned assigned).make context.directory
  else .error (refusal .target (utf8 "unexpected positional arguments"))

def extractParameters : List Parameter :=
  [⟨utf8 "src", .text, true⟩, ⟨utf8 "name", .text, false⟩]

def extractFrom : Assigned extractParameters → Except Failure Bytes
  | (source, name, ()) =>
    match Block.extract (name.getD []) (source.getD []) with
    | .error error => .error (.malformed error)
    | .ok block => .ok block.text

def extract (context : Context) (positional : List Value) (keywords : List (Bytes × Value)) :
    Except Failure Bytes := do
  extractFrom (← context.interpreter.unpackFor .extract extractParameters positional keywords)

def includedPaths (directory : Bytes) (positional : List Value)
    (keywords : List (Bytes × Value)) : Except Failure (List Bytes) := do
  refuseKeywords .include keywords
  return (← textArguments .include positional).map (Path.resolve directory)

def includeFiles (read : Inclusion.Reader) (paths : List Bytes) : Except Failure Bytes :=
  (Inclusion.collect read (paths.map (Path.resolve []))).mapError .ofInclusion

def join (positional : List Value) (keywords : List (Bytes × Value)) : Except Failure Bytes := do
  refuseKeywords .join keywords
  return Inclusion.joinTexts (← textArguments .join positional)

def answer (context : Context) (function : Function) (positional : List Value)
    (keywords : List (Bytes × Value)) : Except Failure Item × List Bytes :=
  match function with
  | .target => ((makeTarget context positional keywords).map .target, [])
  | .extract => ((extract context positional keywords).map .text, [])
  | .include =>
    match includedPaths context.directory positional keywords with
    | .error failure => (.error failure, [])
    | .ok paths => ((includeFiles context.read paths).map .text, paths)
  | .join => ((join positional keywords).map .text, [])

structure Run (α : Type) where
  result : Except Failure α
  printed : List Bytes
  visited : List Bytes

def Course.run {α : Type} (context : Context) : Course α → Run α
  | .ended result => ⟨.ok result, [], []⟩
  | .failed failure => ⟨.error failure, [], []⟩
  | .printed message next =>
    let rest := next.run context
    ⟨rest.result, message :: rest.printed, rest.visited⟩
  | .called function positional keywords next =>
    match answer context function positional keywords with
    | (.error failure, asked) => ⟨.error (.raised failure), [], asked⟩
    | (.ok item, asked) =>
      let rest := (next item).run context
      ⟨rest.result, rest.printed, asked ++ rest.visited⟩

end DocPrologue.Interpreter
