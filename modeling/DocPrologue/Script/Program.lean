import DocPrologue.Bytes

/-!
Programs of a small manifest language: expressions over texts, numbers, lists and calls, and
statements that bind names, print, append to lists and loop.
-/

namespace DocPrologue.Script

mutual

inductive Expr where
  | text (value : Bytes)
  | bytes (value : Bytes)
  | int (value : Int)
  | bool (value : Bool)
  | none
  | list (items : List Expr)
  | tuple (items : List Expr)
  | dict (entries : List Entry)
  | name (name : Bytes)
  | call (function : Bytes) (arguments : List Argument)

inductive Entry where
  | entry (key value : Expr)

inductive Argument where
  | positional (value : Expr)
  | spread (value : Expr)
  | keyword (name : Bytes) (value : Expr)

end

inductive Statement where
  | assign (name : Bytes) (value : Expr)
  | evaluate (value : Expr)
  | print (values : List Expr)
  | append (name : Bytes) (value : Expr)
  | loop (name : Bytes) (items : Expr) (body : List Statement)

abbrev Program := List Statement

end DocPrologue.Script
