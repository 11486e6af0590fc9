import DocPrologue.Script.Program
import DocPrologue.Script.Value

/-!
Evaluation of programs of the small language, which makes a course of them. The first failure ends a
course.
-/

namespace DocPrologue.Script

open Text (utf8)
open Interpreter (Course Function)

structure Machine where
  names : List (Bytes × Value)
  store : Store

def Machine.start : Machine := ⟨[], []⟩

abbrev Run := StateT Machine Course

namespace Run

def fail {α : Type} (message : Bytes) : Run α := fun _ => .failed (.raised (.note message))

def allocate (cell : Cell) : Run Nat := do
  let machine ← get
  set { machine with store := machine.store ++ [cell] }
  return machine.store.length

def assign (name : Bytes) (value : Value) : Run Unit :=
  modify fun machine => { machine with names := (name, value) :: machine.names }

def print (message : Bytes) : Run Unit := fun machine => .printed message (.ended ((), machine))

def predeclared? (name : Bytes) : Option Value :=
  if name = utf8 "docs" then some .docs
  else ([.target, .extract, .include, .join].find? fun function =>
    Function.name function == name).map .function

def lookup (name : Bytes) : Run Value := do
  match (← get).names.lookup name with
  | some value => return value
  | none =>
    match predeclared? name with
    | some value => return value
    | none => fail (utf8 "undefined: " ++ name)

def items (value : Value) (refusal : Bytes) : Run (List Value) := do
  match (← get).store.items? value with
  | some items => return items
  | none => fail refusal

def call (function : Function) (positional : List Value) (keywords : List (Bytes × Value)) :
    Run Value := fun machine =>
  .called function (positional.map machine.store.view)
    (keywords.map fun keyword => (keyword.1, machine.store.view keyword.2))
    fun answer => .ended (.ofItem answer, machine)

def apply (callee : Value) (positional : List Value) (keywords : List (Bytes × Value)) :
    Run Value :=
  match callee with
  | .function function => call function positional keywords
  | value => fail (utf8 "invalid call of non-function (" ++ value.typeName ++ utf8 ")")

def addEntry (entries : List (Value × Value)) (key value : Value) : Run (List (Value × Value)) := do
  let store := (← get).store
  match store.unhashable? (store.length + 1) key with
  | some name => fail (utf8 "unhashable: " ++ name)
  | none =>
    if entries.any fun entry => store.sameKey (store.length + 1) entry.1 key then
      fail (utf8 "duplicate key: " ++ store.label key)
    else return entries ++ [(key, value)]

def countLoop (change : Nat → Nat) : Value → Run Unit
  | .list cell => modify fun machine =>
    match machine.store[cell]? with
    | some (.list items loops) =>
      { machine with store := machine.store.set cell (.list items (change loops)) }
    | _ => machine
  | _ => return ()

def appendTo (list value : Value) : Run Unit := do
  match list with
  | .list cell =>
    match (← get).store[cell]? with
    | some (.list items 0) =>
      modify fun machine =>
        { machine with store := machine.store.set cell (.list (items ++ [value]) 0) }
    | _ => fail (utf8 "append: cannot append to list during iteration")
  | other => fail (other.typeName ++ utf8 " has no .append field or method")

end Run

mutual

def evaluate : Expr → Run Value
  | .text value => return .text value
  | .bytes value => return .bytes value
  | .int value => return .int value
  | .bool value => return .bool value
  | .none => return .none
  | .list items => return .list (← Run.allocate (.list (← evaluateAll items) 0))
  | .tuple items => return .tuple (← Run.allocate (.tuple (← evaluateAll items)))
  | .dict entries => return .dict (← Run.allocate (.dict (← evaluateEntries entries [])))
  | .name name => Run.lookup name
  | .call function arguments => do
    let callee ← Run.lookup function
    let (positional, keywords) ← evaluateArguments arguments
    Run.apply callee positional keywords

def evaluateAll : List Expr → Run (List Value)
  | [] => return []
  | expr :: exprs => return (← evaluate expr) :: (← evaluateAll exprs)

def evaluateEntries :
    List Entry → List (Value × Value) → Run (List (Value × Value))
  | [], entries => return entries
  | .entry key value :: rest, entries => do
    let key ← evaluate key
    let value ← evaluate value
    evaluateEntries rest (← Run.addEntry entries key value)

def evaluateArguments :
    List Argument → Run (List Value × List (Bytes × Value))
  | [] => return ([], [])
  | .positional expr :: rest => do
    let value ← evaluate expr
    let (positional, keywords) ← evaluateArguments rest
    return (value :: positional, keywords)
  | .spread expr :: rest => do
    let value ← evaluate expr
    let items ← Run.items value (utf8 "argument after * must be iterable, not " ++ value.typeName)
    let (positional, keywords) ← evaluateArguments rest
    return (items ++ positional, keywords)
  | .keyword name expr :: rest => do
    let value ← evaluate expr
    let (positional, keywords) ← evaluateArguments rest
    return (positional, (name, value) :: keywords)

end

mutual

def execute : Statement → Run Unit
  | .assign name value => do Run.assign name (← evaluate value)
  | .evaluate value => do let _ ← evaluate value
  | .print values => do
    let values ← evaluateAll values
    let store := (← get).store
    Run.print (Bytes.join [Byte.space] (values.map store.printed))
  | .append name value => do
    let list ← Run.lookup name
    Run.appendTo list (← evaluate value)
  | .loop name items body => do
    let value ← evaluate items
    let values ← Run.items value (value.typeName ++ utf8 " value is not iterable")
    Run.countLoop (· + 1) value
    values.forM fun item => do
      Run.assign name item
      executeAll body
    Run.countLoop (· - 1) value

def executeAll : Program → Run Unit
  | [] => return ()
  | statement :: rest => do
    execute statement
    executeAll rest

end

def courseOf (program : Program) : Course (Option Interpreter.Value) := do
  let ((), machine) ← (executeAll program).run .start
  return (machine.names.lookup (utf8 "targets")).map machine.store.view

def courseOfExpr (expr : Expr) : Course (Value × Machine) := (evaluate expr).run .start

end DocPrologue.Script
