import DocPrologue.Cursor

/-!
The documentation prologue of a source: the leading run of regions that are written in one form.
Its decoded text is a `Block`, one element per line, and never ends with a blank line.
-/

namespace DocPrologue

open Text (isBlank)

abbrev Block := List Bytes

namespace Block

def text (block : Block) : Bytes := Bytes.join [Byte.lf] block

/-- Reads on from a cursor. `active` is the form of the regions read so far and `lines` holds their
text, last line first. The run ends at code, at the end of the input, at a region of another form,
and behind a region that code follows on its last line. -/
def scan (active : Option Form) (lines : List Bytes) (cursor : Cursor) :
    Except Malformed (List Bytes) :=
  if active.any (fun form => cursor.peek.isDoc && cursor.peek != form) then .ok lines
  else
    match _read : cursor.next with
    | .error error => .error error
    | .ok (region, after) =>
      if _blank : region.form = .blank then
        scan active (if active.isSome then [] :: lines else lines) after
      else if _doc : region.form.isDoc then
        if region.trailing then .ok (region.lines.reverse ++ lines)
        else scan (some region.form) (region.lines.reverse ++ lines) after
      else .ok lines
termination_by cursor.rest.length
decreasing_by
  · exact Cursor.next_length _read (by simp [_blank]) (by simp [_blank])
  · exact Cursor.next_length _read (by intro form; simp [form, Form.isDoc] at _doc)
      (by intro form; simp [form, Form.isDoc] at _doc)

def extract (name source : Bytes) : Except Malformed Block :=
  match scan none [] (.ofSource name source) with
  | .error error => .error error
  | .ok lines => .ok (lines.dropWhile isBlank).reverse

end Block

end DocPrologue
