import DocPrologue.Command.Flags
import DocPrologue.Command.World

/-!
The part that all commands share: parsing the command line, showing help and version, and what is
shown of a failure at the end.
-/

namespace DocPrologue

open Text (utf8)

structure Command where
  flags : List Flag
  documentation : Option Bytes
  version : Bytes

namespace Command

def versionFlag : Flag := ⟨utf8 "version", .switch, [], utf8 "Show version."⟩

def ownsVersion (command : Command) : Bool :=
  command.flags.any fun flag => flag.name == versionFlag.name

def allFlags (command : Command) : List Flag :=
  if command.ownsVersion then command.flags else command.flags ++ [versionFlag]

def usage (command : Command) : Bytes :=
  (match command.documentation with
    | some text => text ++ [Byte.lf]
    | none => []) ++
  utf8 "Available flags:\n\n" ++ Flag.helpTexts command.allFlags

structure Start where
  world : World
  values : Flag.Values
  arguments : Except Failure (List Bytes)

def start (command : Command) (arguments : List Bytes) (world : World) : Start :=
  let parsed := Flag.parse command.allFlags [] arguments
  match parsed.error with
  | some .helpRequested =>
    ⟨world.report command.usage, parsed.values, .error (.reported .helpRequested)⟩
  | some error =>
    ⟨world.report (error.message ++ [Byte.lf] ++ command.usage), parsed.values,
      .error (.reported (.note error.message))⟩
  | none =>
    if !command.ownsVersion && Flag.switchOf parsed.values versionFlag.name then
      ⟨world.report command.version, parsed.values, .error .versionShown⟩
    else ⟨world, parsed.values, .ok parsed.arguments⟩

def showFailure (world : World) : Option Failure → World
  | none => world
  | some failure =>
    if failure.isPrintable then world.report (failure.message ++ [Byte.lf]) else world

def exitCode : Option Failure → Nat
  | none => 0
  | some _ => 1

end Command

end DocPrologue
