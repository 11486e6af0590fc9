import DocPrologue.Command.Basic
import DocPrologue.Manifest

/-!
Settings of the documentation tool: each is a flag, and one that is not given falls back to a
variable of the environment.
-/

namespace DocPrologue.Tool

open Text (utf8)

abbrev Environment := List (Bytes × Bytes)

def Environment.get (environment : Environment) (name : Bytes) : Bytes :=
  (environment.lookup name).getD []

structure Settings where
  directory : Bytes
  output : Bytes
  format : Bytes
  package : Bytes
  manifest : Bytes
  watch : Bool
deriving DecidableEq, Repr

def flags : List Flag :=
  [⟨utf8 "dir", .text, utf8 "dir",
      utf8 "Resolve input files against dir instead of the directory of $GOFILE."⟩,
    ⟨utf8 "o", .text, utf8 "file", utf8 "Write the result to file instead of stdout."⟩,
    ⟨utf8 "format", .text, utf8 "format", utf8 "Output format: raw or go."⟩,
    ⟨utf8 "package", .text, utf8 "name",
      utf8 "Package name for the go format. Defaults to $GOPACKAGE."⟩,
    ⟨utf8 "manifest", .text, utf8 "file",
      utf8 "Generate every target of the Starlark manifest file."⟩,
    ⟨utf8 "watch", .switch, [], utf8 "Regenerate when inputs change, until interrupted."⟩]

def firstGiven : List Bytes → Bytes
  | [] => []
  | text :: texts => if text.isEmpty then firstGiven texts else text

namespace Settings

def ofFlags (values : Flag.Values) : Settings where
  directory := Flag.textOf values (utf8 "dir")
  output := Flag.textOf values (utf8 "o")
  format := Flag.textOf values (utf8 "format")
  package := Flag.textOf values (utf8 "package")
  manifest := Flag.textOf values (utf8 "manifest")
  watch := Flag.switchOf values (utf8 "watch")

def complete (settings : Settings) (environment : Environment) : Settings where
  directory := firstGiven [settings.directory, environment.get (utf8 "INCLUDEDOCS_DIR"),
    Path.directory (environment.get (utf8 "GOFILE"))]
  output := firstGiven [settings.output, environment.get (utf8 "INCLUDEDOCS_OUTPUT")]
  format := firstGiven [settings.format, environment.get (utf8 "INCLUDEDOCS_FORMAT")]
  package := firstGiven [settings.package, environment.get (utf8 "INCLUDEDOCS_PACKAGE"),
    environment.get (utf8 "GOPACKAGE")]
  manifest := firstGiven [settings.manifest, environment.get (utf8 "INCLUDEDOCS_MANIFEST")]
  watch := settings.watch

def usesManifest (settings : Settings) : Bool := !settings.manifest.isEmpty

def validate (settings : Settings) (files : List Bytes) : Except Failure Unit :=
  if settings.usesManifest then
    if !files.isEmpty then .error (.misuse (utf8 "files and -manifest are mutually exclusive"))
    else if !settings.output.isEmpty || !settings.format.isEmpty then
      .error (.misuse (utf8 "-o and -format are set by the manifest"))
    else .ok ()
  else if files.isEmpty then .error (.misuse (utf8 "at least one file is required"))
  else
    match Format.parse settings.format with
    | .error error => .error (.misuse error.message)
    | .ok format =>
      if format = .go ∧ settings.package.isEmpty then
        .error (.misuse (utf8 "-package or $GOPACKAGE is required for the go format"))
      else if settings.watch && settings.output.isEmpty then
        .error (.misuse (utf8 "-watch requires -o or -manifest"))
      else .ok ()

end Settings

end DocPrologue.Tool
