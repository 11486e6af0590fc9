import DocPrologue.Interpreter
import DocPrologue.Text.Decimal

/-!
Values of a small manifest language. Lists, tuples and dictionaries live in cells of a store, so a
list that two names share grows under both; all other values stand for themselves.
-/

namespace DocPrologue.Script

open Text (utf8 quote decimalInt)
open Interpreter (Function Item)

inductive Value where
  | text (value : Bytes)
  | bytes (value : Bytes)
  | int (value : Int)
  | bool (value : Bool)
  | none
  | list (cell : Nat)
  | tuple (cell : Nat)
  | dict (cell : Nat)
  | docs
  | function (function : Function)
  | target (target : Target)
deriving DecidableEq, Repr

inductive Cell where
  | list (items : List Value) (loops : Nat)
  | tuple (items : List Value)
  | dict (entries : List (Value × Value))
deriving DecidableEq, Repr

abbrev Store := List Cell

namespace Value

def typeName : Value → Bytes
  | text _ => utf8 "string"
  | bytes _ => utf8 "bytes"
  | int _ => utf8 "int"
  | bool _ => utf8 "bool"
  | none => utf8 "NoneType"
  | list _ => utf8 "list"
  | tuple _ => utf8 "tuple"
  | dict _ => utf8 "dict"
  | docs => utf8 "module"
  | function _ => utf8 "builtin_function_or_method"
  | target _ => utf8 "target"

def item : Value → Item
  | text value => .text value
  | target goal => .target goal
  | none => .none
  | value => .other value.typeName

def ofItem : Item → Value
  | .text value => .text value
  | .target goal => .target goal
  | _ => .none

end Value

namespace Store

def items? (store : Store) : Value → Option (List Value)
  | .list cell =>
    match store[cell]? with
    | some (.list items _) => some items
    | _ => none
  | .tuple cell =>
    match store[cell]? with
    | some (.tuple items) => some items
    | _ => none
  | _ => none

def view (store : Store) : Value → Interpreter.Value
  | .list cell => .list (((store.items? (.list cell)).getD []).map Value.item)
  | value => .item value.item

def entries (store : Store) (cell : Nat) : List (Value × Value) :=
  match store[cell]? with
  | some (.dict entries) => entries
  | _ => []

def separator : Bytes := utf8 ", "

/-- How a value is shown inside another one. A list inside itself is shown as dots; `outer` are the
cells that the value stands in. No chain of values is longer than the store, so its size bounds
`depth`. -/
def display (store : Store) : (depth : Nat) → (outer : List Nat) → Value → Bytes
  | 0, _, _ => utf8 "..."
  | depth + 1, outer, value =>
    match value with
    | .text value => quote value
    | .bytes value => utf8 "b" ++ quote value
    | .int value => decimalInt value
    | .bool value => if value then utf8 "True" else utf8 "False"
    | .none => utf8 "None"
    | .list cell =>
      if cell ∈ outer then utf8 "[...]"
      else
        utf8 "[" ++ Bytes.join separator
          (((store.items? (.list cell)).getD []).map (display store depth (cell :: outer))) ++
          utf8 "]"
    | .tuple cell =>
      let shown := ((store.items? (.tuple cell)).getD []).map (display store depth outer)
      utf8 "(" ++ Bytes.join separator shown ++ (if shown.length = 1 then utf8 "," else []) ++
        utf8 ")"
    | .dict cell =>
      utf8 "\x7b" ++ Bytes.join separator ((store.entries cell).map fun entry =>
        display store depth outer entry.1 ++ utf8 ": " ++ display store depth outer entry.2) ++
        utf8 "\x7d"
    | .docs => utf8 "<module " ++ quote (utf8 "docs") ++ utf8 ">"
    | .function function => utf8 "<built-in function " ++ function.name ++ utf8 ">"
    | .target target => target.label

def label (store : Store) (value : Value) : Bytes := store.display (store.length + 1) [] value

def printed (store : Store) : Value → Bytes
  | .text value => value
  | .bytes value => value
  | value => store.label value

def unhashable? (store : Store) : (depth : Nat) → Value → Option Bytes
  | 0, _ => none
  | depth + 1, value =>
    match value with
    | .list _ | .dict _ | .docs | .target _ => some value.typeName
    | .tuple cell =>
      ((store.items? (.tuple cell)).getD []).findSome? (unhashable? store depth)
    | _ => none

def sameKey (store : Store) : (depth : Nat) → Value → Value → Bool
  | 0, left, right => left == right
  | depth + 1, left, right =>
    match left, right with
    | .tuple first, .tuple second =>
      let firsts := (store.items? (.tuple first)).getD []
      let seconds := (store.items? (.tuple second)).getD []
      firsts.length == seconds.length &&
        (firsts.zip seconds).all fun pair => sameKey store depth pair.1 pair.2
    | left, right => left == right

end Store

end DocPrologue.Script
