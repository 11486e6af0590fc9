import DocPrologue.Bytes

/-!
Slash-separated paths. Cleaning is lexical: empty and single-dot parts are dropped, and a double-dot
part takes away the part before it, so in a cleaned relative path double dots stand only at the
front.
-/

namespace DocPrologue.Path

def current : Bytes := [Byte.dot]

def parent : Bytes := [Byte.dot, Byte.dot]

def isAbsolute (path : Bytes) : Bool := path.head? == some Byte.slash

def parts (path : Bytes) : List Bytes := Bytes.split Byte.slash path

def push (rooted : Bool) (stack : List Bytes) (part : Bytes) : List Bytes :=
  if part.isEmpty ∨ part = current then stack
  else if part = parent then
    match stack with
    | [] => if rooted then [] else [parent]
    | top :: below => if top = parent then parent :: stack else below
  else part :: stack

def normalize (rooted : Bool) (parts : List Bytes) : List Bytes :=
  (parts.foldl (push rooted) []).reverse

def ofParts (rooted : Bool) (parts : List Bytes) : Bytes :=
  if rooted then Byte.slash :: Bytes.join [Byte.slash] parts
  else if parts.isEmpty then current
  else Bytes.join [Byte.slash] parts

def clean (path : Bytes) : Bytes :=
  ofParts (isAbsolute path) (normalize (isAbsolute path) (parts path))

def join (directory path : Bytes) : Bytes :=
  if directory.isEmpty then
    if path.isEmpty then [] else clean path
  else clean (directory ++ Byte.slash :: path)

def resolve (directory path : Bytes) : Bytes :=
  if isAbsolute path then path else join directory path

def lastPart (path : Bytes) : Bytes := (path.reverse.takeWhile (· != Byte.slash)).reverse

def upToSlash (path : Bytes) : Bytes := (path.reverse.dropWhile (· != Byte.slash)).reverse

def directory (path : Bytes) : Bytes := clean (upToSlash path)

def base (path : Bytes) : Bytes :=
  if path.isEmpty then current
  else
    let name := lastPart (Bytes.trimRight (· == Byte.slash) path)
    if name.isEmpty then [Byte.slash] else name

def extension (path : Bytes) : Bytes :=
  let name := (lastPart path).reverse
  if name.contains Byte.dot then Byte.dot :: (name.takeWhile (· != Byte.dot)).reverse else []

def withoutExtension (path : Bytes) : Bytes := path.take (path.length - (extension path).length)

end DocPrologue.Path
