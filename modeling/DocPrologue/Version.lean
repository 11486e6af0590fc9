import DocPrologue.Text.Utf8

/-! Version and build information, and the text that shows it. -/

namespace DocPrologue

open Text (utf8)

structure Version where
  version : Bytes
  commit : Bytes
  builtAt : Bytes
  dirty : Bool
  toolchain : Bytes
  system : Bytes
  architecture : Bytes
deriving DecidableEq, Repr

structure Build where
  version : Bytes
  settings : List (Bytes × Bytes)

namespace Version

def commandName : Bytes := utf8 "includedocs"

def text (info : Version) : Bytes :=
  commandName ++ utf8 " " ++ info.version ++ utf8 " (" ++ info.toolchain ++ utf8 ", " ++
    info.system ++ utf8 "/" ++ info.architecture ++ utf8 ")\n" ++
    (if info.commit.isEmpty then []
      else
        utf8 "commit " ++ info.commit ++ (if info.dirty then utf8 " (dirty)" else []) ++
          utf8 "\n") ++
    (if info.builtAt.isEmpty then [] else utf8 "built at " ++ info.builtAt ++ utf8 "\n")

def development (toolchain system architecture : Bytes) : Version :=
  ⟨utf8 "devel", [], [], false, toolchain, system, architecture⟩

def withSetting (info : Version) (setting : Bytes × Bytes) : Version :=
  if setting.1 = utf8 "vcs.revision" then { info with commit := setting.2 }
  else if setting.1 = utf8 "vcs.time" then { info with builtAt := setting.2 }
  else if setting.1 = utf8 "vcs.modified" then { info with dirty := setting.2 = utf8 "true" }
  else info

def withBuild (info : Version) (build : Build) : Version :=
  let named :=
    if build.version.isEmpty ∨ build.version = utf8 "(devel)" then info
    else { info with version := build.version }
  build.settings.foldl withSetting named

end Version

end DocPrologue
