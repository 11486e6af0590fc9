import DocPrologue.Tool.Watch
import DocPrologue.Version

/-!
Runs of the documentation tool, from the command line to the end of the first pass or of the watch.
-/

namespace DocPrologue.Tool

open Text (utf8)

def documentation : Bytes :=
  utf8 "Includedocs joins the module-level documentation of source files.

For every file, it reads the documentation at the very top of the file:
a run of //! line comments, /*! block comments or #![doc = \"...\"]
attributes, ending at the first line of code. The results are joined with a
blank line between consecutive files, in the order given.

# Usage

\t$ includedocs [flags...] <file>...
\t$ includedocs -manifest includedocs.star

Files are resolved against -dir, which defaults to the directory of the file
that contains the go:generate directive:

\t//go:generate includedocs -o README.md src/lib.rs src/fruit.rs
\t//go:generate includedocs -o doc.go -format go src/lib.rs

With -format go, the result is written as the package doc comment of a Go
file. The package name is taken from -package or $GOPACKAGE.

A Starlark manifest describes several outputs at once:

\ttargets = [
\t    target(output = \"README.md\", files = [\"src/lib.rs\"]),
\t    target(
\t        output = \"doc.go\",
\t        text = docs.join(\"Package fruit.\", docs.include(\"src/fruit.rs\")),
\t        format = \"go\",
\t        package = \"fruit\",
\t    ),
\t]

With -watch, outputs are regenerated whenever an input changes.

# Environment

Flags that are not set on the command line are read from INCLUDEDOCS_DIR,
INCLUDEDOCS_OUTPUT, INCLUDEDOCS_FORMAT, INCLUDEDOCS_PACKAGE and
INCLUDEDOCS_MANIFEST.
"

def command (version : Version) : Command := ⟨flags, some documentation, version.text⟩

structure Session where
  settings : Settings
  world : World
  failure : Option Failure
  watch : Option Watch

namespace Session

def ended (settings : Settings) (world : World) (failure : Option Failure) : Session :=
  ⟨settings, world, failure, none⟩

def perform (interpreter : Interpreter) (settings : Settings) (files : List Bytes)
    (world : World) : Session :=
  match settings.validate files with
  | .error failure => ended settings world (some failure)
  | .ok () =>
    match Plan.make interpreter settings files world with
    | (world, .error failure) => ended settings world (some failure)
    | (world, .ok plan) =>
      if settings.watch then
        match Watch.start settings files plan world with
        | (world, .error failure) => ended settings world (some failure)
        | (world, .ok watch) => ⟨settings, world, none, some watch⟩
      else
        let (world, failure) := plan.run false world
        ended settings world failure

def run (interpreter : Interpreter) (version : Version) (environment : Environment)
    (arguments : List Bytes) (world : World) : Session :=
  let start := (command version).start arguments world
  let settings := Settings.ofFlags start.values
  match start.arguments with
  | .error failure => ended settings start.world (some failure)
  | .ok files => perform interpreter (settings.complete environment) files start.world

def worlds (interpreter : Interpreter) (watch : Watch) : List (List Edit) → List World
  | [] => [watch.world]
  | burst :: bursts => watch.world :: worlds interpreter (watch.step interpreter burst) bursts

def finalWorld (interpreter : Interpreter) (session : Session) (bursts : List (List Edit)) :
    World :=
  match session.watch with
  | none => session.world
  | some watch => (bursts.foldl (Watch.step interpreter) watch).world

end Session

end DocPrologue.Tool
