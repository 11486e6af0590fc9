import DocPrologue.Script.Value

/-!
Binding of arguments to parameters: positional ones in order, then keywords in the order given, then
the check that nothing required is missing.
-/

namespace DocPrologue.Script

open Text (utf8 quote decimal)
open Interpreter (Function Kind Parameter Assigned)

inductive ArgumentError where
  | tooMany (given limit : Nat)
  | positionalType (parameter found wanted : Bytes)
  | keywordType (parameter found wanted : Bytes)
  | unknownKeyword (name : Bytes)
  | repeated (name : Bytes)
  | missing (parameter : Bytes)
deriving DecidableEq, Repr

namespace ArgumentError

def detail : ArgumentError → Bytes
  | tooMany given limit =>
    utf8 "got " ++ decimal given ++ utf8 " arguments, want at most " ++ decimal limit
  | positionalType parameter found wanted =>
    utf8 "for parameter " ++ parameter ++ utf8 ": got " ++ found ++ utf8 ", want " ++ wanted
  | keywordType parameter found wanted =>
    utf8 "for parameter " ++ quote parameter ++ utf8 ": got " ++ found ++ utf8 ", want " ++ wanted
  | unknownKeyword name => utf8 "unexpected keyword argument " ++ quote name
  | repeated name => utf8 "got multiple values for keyword argument " ++ quote name
  | missing parameter => utf8 "missing argument for " ++ parameter

end ArgumentError

def kindName : Kind → Bytes
  | .text => utf8 "string"
  | .list => utf8 "list"
  | .any => utf8 "value"

def accept? : (kind : Kind) → Interpreter.Value → Option kind.type
  | .text, .item (.text value) => some value
  | .list, .list items => some items
  | .any, value => some value
  | _, _ => none

def unassigned : (parameters : List Parameter) → Assigned parameters
  | [] => ()
  | _ :: parameters => (none, unassigned parameters)

def bindPositional : (parameters : List Parameter) → List Interpreter.Value →
    Except ArgumentError (Assigned parameters)
  | [], _ => .ok ()
  | parameters, [] => .ok (unassigned parameters)
  | parameter :: parameters, value :: values =>
    match accept? parameter.kind value with
    | none => .error (.positionalType parameter.name value.typeName (kindName parameter.kind))
    | some given =>
      match bindPositional parameters values with
      | .error error => .error error
      | .ok others => .ok (some given, others)

def bindKeyword (name : Bytes) (value : Interpreter.Value) :
    (parameters : List Parameter) → Assigned parameters →
      Except ArgumentError (Assigned parameters)
  | [], _ => .error (.unknownKeyword name)
  | parameter :: parameters, (bound, others) =>
    if parameter.name = name then
      if bound.isSome then .error (.repeated name)
      else
        match accept? parameter.kind value with
        | none => .error (.keywordType name value.typeName (kindName parameter.kind))
        | some given => .ok (some given, others)
    else
      match bindKeyword name value parameters others with
      | .error error => .error error
      | .ok others => .ok (bound, others)

def bindKeywords {parameters : List Parameter} :
    List (Bytes × Interpreter.Value) → Assigned parameters →
      Except ArgumentError (Assigned parameters)
  | [], assigned => .ok assigned
  | keyword :: keywords, assigned =>
    match bindKeyword keyword.1 keyword.2 parameters assigned with
    | .error error => .error error
    | .ok assigned => bindKeywords keywords assigned

def missing? : (parameters : List Parameter) → Assigned parameters → Option Bytes
  | [], _ => none
  | parameter :: parameters, (bound, others) =>
    if parameter.required && bound.isNone then some parameter.name else missing? parameters others

def bindArguments (parameters : List Parameter) (positional : List Interpreter.Value)
    (keywords : List (Bytes × Interpreter.Value)) : Except ArgumentError (Assigned parameters) :=
  if parameters.length < positional.length then
    .error (.tooMany positional.length parameters.length)
  else
    match bindPositional parameters positional with
    | .error error => .error error
    | .ok assigned =>
      match bindKeywords keywords assigned with
      | .error error => .error error
      | .ok assigned =>
        match missing? parameters assigned with
        | some name => .error (.missing name)
        | none => .ok assigned

def unpack (function : Function) (parameters : List Parameter)
    (positional : List Interpreter.Value) (keywords : List (Bytes × Interpreter.Value)) :
    Except Bytes (Assigned parameters) :=
  (bindArguments parameters positional keywords).mapError fun error =>
    function.name ++ utf8 ": " ++ error.detail

end DocPrologue.Script
