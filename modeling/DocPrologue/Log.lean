import DocPrologue.Bytes

/-! Log lines: every message ends its line, and a written text loses one line feed at its end. -/

namespace DocPrologue.Log

def line (message : Bytes) : Bytes :=
  if message.getLast? = some Byte.lf then message else message ++ [Byte.lf]

def ofWritten (text : Bytes) : Bytes := Bytes.dropTrailing Byte.lf text

end DocPrologue.Log
