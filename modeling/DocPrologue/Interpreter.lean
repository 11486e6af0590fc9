import DocPrologue.Target

/-!
Interpreters of manifest programs. The language is left open: an interpreter makes a course of the
text of a program, and a course only prints and calls, each call waiting for its answer. So there is
no other way for a program to a file than to call for it, and a program that makes nothing up has no
other targets than those it was given.
-/

namespace DocPrologue

open Text (utf8)

namespace Interpreter

inductive Function where
  | target
  | extract
  | include
  | join
deriving DecidableEq, Repr

def Function.name : Function → Bytes
  | target => utf8 "target"
  | extract => utf8 "docs.extract"
  | .include => utf8 "docs.include"
  | join => utf8 "docs.join"

inductive Item where
  | text (value : Bytes)
  | target (target : Target)
  | none
  | other (typeName : Bytes)
deriving DecidableEq, Repr

def Item.typeName : Item → Bytes
  | text _ => utf8 "string"
  | target _ => utf8 "target"
  | none => utf8 "NoneType"
  | other name => name

inductive Value where
  | item (item : Item)
  | list (items : List Item)
deriving DecidableEq, Repr

def Value.closed : Value → Item
  | item held => held
  | list _ => .other (utf8 "list")

def Value.typeName (value : Value) : Bytes := value.closed.typeName

inductive Kind where
  | text
  | list
  | any
deriving DecidableEq, Repr

def Kind.type : Kind → Type
  | text => Bytes
  | list => List Item
  | any => Value

structure Parameter where
  name : Bytes
  kind : Kind
  required : Bool
deriving DecidableEq, Repr

def Assigned : List Parameter → Type
  | [] => Unit
  | parameter :: parameters => Option parameter.kind.type × Assigned parameters

inductive Course (α : Type) where
  | ended (result : α)
  | failed (failure : Failure)
  | printed (message : Bytes) (next : Course α)
  | called (function : Function) (positional : List Value) (keywords : List (Bytes × Value))
      (next : Item → Course α)

namespace Course

variable {α β : Type}

def bind : Course α → (α → Course β) → Course β
  | ended result, rest => rest result
  | failed failure, _ => failed failure
  | printed message next, rest => printed message (next.bind rest)
  | called function positional keywords next, rest =>
    called function positional keywords fun answer => (next answer).bind rest

instance : Monad Course where
  pure := ended
  bind := bind

def Ends (possible : Item → Prop) (good : α → Prop) : Course α → Prop
  | ended result => good result
  | failed _ => True
  | printed _ next => next.Ends possible good
  | called _ _ _ next => ∀ answer, possible answer → (next answer).Ends possible good

end Course

def Item.Has (property : Target → Prop) : Item → Prop
  | target held => property held
  | _ => True

def Value.Has (property : Target → Prop) : Value → Prop
  | item held => held.Has property
  | list items => ∀ item ∈ items, item.Has property

end Interpreter

open Interpreter

structure Interpreter where
  unpack : Function → (parameters : List Parameter) → List Value → List (Bytes × Value) →
    Except Bytes (Assigned parameters)
  /-- The course of a program. It ends with the value that is left as the program's targets. -/
  course : (filename source : Bytes) → Course (Option Value)

/-- Programs make no target up: what holds of every target that a call answers with holds of every
target that is left at the end. -/
def Interpreter.Unforged (interpreter : Interpreter) : Prop :=
  ∀ (filename source : Bytes) (property : Target → Prop),
    (interpreter.course filename source).Ends (Item.Has property) fun left =>
      ∀ value, left = some value → value.Has property

end DocPrologue
