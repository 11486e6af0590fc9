import DocPrologue.Script.Program
import DocPrologue.Script.Token

/-!
Programs from their text. A statement takes one line, and the body of a loop is indented below it.
A reader gives what it finds at the start of some tokens, and the tokens behind that.
-/

namespace DocPrologue.Script

open Text (utf8)

namespace Source

def openRound : Token := .mark 0x28

def closeRound : Token := .mark 0x29

def openSquare : Token := .mark Byte.openBracket

def closeSquare : Token := .mark Byte.closeBracket

def openCurly : Token := .mark Byte.openBrace

def closeCurly : Token := .mark Byte.closeBrace

def comma : Token := .mark 0x2C

def colon : Token := .mark 0x3A

def equals : Token := .mark Byte.equals

def star : Token := .mark Byte.star

def minus : Token := .mark Byte.dash

def skip (token : Token) : List Token → Option (List Token)
  | [] => none
  | next :: rest => if next = token then some rest else none

def itemsUntil {α : Type} (item : List Token → Option (α × List Token)) (closing : Token) :
    (fuel : Nat) → List Token → Option ((List α × Bool) × List Token)
  | 0, _ => none
  | fuel + 1, tokens =>
    match skip closing tokens with
    | some rest => some (([], false), rest)
    | none =>
      match item tokens with
      | none => none
      | some (first, rest) =>
        match skip comma rest with
        | some more =>
          (itemsUntil item closing fuel more).map fun ((items, _), after) =>
            ((first :: items, true), after)
        | none => (skip closing rest).map fun after => (([first], false), after)

def argument (expr : List Token → Option (Expr × List Token)) (tokens : List Token) :
    Option (Argument × List Token) :=
  match tokens with
  | .name name :: .mark 0x3D :: rest =>
    (expr rest).map fun (value, after) => (.keyword name value, after)
  | .mark 0x2A :: rest => (expr rest).map fun (value, after) => (.spread value, after)
  | _ => (expr tokens).map fun (value, after) => (.positional value, after)

def entry (expr : List Token → Option (Expr × List Token)) (tokens : List Token) :
    Option (Entry × List Token) := do
  let (key, rest) ← expr tokens
  let (value, after) ← expr (← skip colon rest)
  return (.entry key value, after)

def nameExpr (name : Bytes) : Expr :=
  if name = utf8 "None" then .none
  else if name = utf8 "True" then .bool true
  else if name = utf8 "False" then .bool false
  else .name name

/-- The expression at the start of some tokens. An expression takes at least one token, so their
number bounds `fuel`. -/
def expr : (fuel : Nat) → List Token → Option (Expr × List Token)
  | 0, _ => none
  | fuel + 1, tokens =>
    match tokens with
    | .text value :: rest => some (.text value, rest)
    | .bytes value :: rest => some (.bytes value, rest)
    | .number value :: rest => some (.int value, rest)
    | .name name :: rest =>
      match skip openRound rest with
      | some inner =>
        (itemsUntil (argument (expr fuel)) closeRound fuel inner).map fun ((items, _), after) =>
          (.call name items, after)
      | none => some (nameExpr name, rest)
    | .mark mark :: rest =>
      if Token.mark mark = minus then
        match rest with
        | .number value :: after => some (.int (-value), after)
        | _ => none
      else if Token.mark mark = openSquare then
        (itemsUntil (expr fuel) closeSquare fuel rest).map fun ((items, _), after) =>
          (.list items, after)
      else if Token.mark mark = openCurly then
        (itemsUntil (entry (expr fuel)) closeCurly fuel rest).map fun ((entries, _), after) =>
          (.dict entries, after)
      else if Token.mark mark = openRound then
        (itemsUntil (expr fuel) closeRound fuel rest).map fun ((items, commas), after) =>
          match items, commas with
          | [item], false => (item, after)
          | items, _ => (.tuple items, after)
      else none
    | _ => none

def appendEnding : Bytes := utf8 ".append"

def ofExpr : Expr → Statement
  | .call function arguments =>
    let values := arguments.filterMap fun argument =>
      match argument with
      | .positional value => some value
      | _ => none
    if function = utf8 "print" ∧ values.length = arguments.length then .print values
    else
      match arguments with
      | [.positional value] =>
        if Bytes.endsWith appendEnding function then
          .append (function.take (function.length - appendEnding.length)) value
        else .evaluate (.call function arguments)
      | _ => .evaluate (.call function arguments)
  | value => .evaluate value

def simpleStatement (tokens : List Token) : Option (Statement × List Token) :=
  match tokens with
  | .name name :: .mark 0x3D :: rest =>
    (expr rest.length rest).map fun (value, after) => (.assign name value, after)
  | _ => (expr tokens.length tokens).map fun (value, after) => (ofExpr value, after)

def loopHead (tokens : List Token) : Option ((Bytes × Expr) × List Token) :=
  match tokens with
  | .name loop :: .name name :: .name inside :: rest =>
    if loop = utf8 "for" ∧ inside = utf8 "in" then do
      let (items, after) ← expr rest.length rest
      return ((name, items), ← skip colon after)
    else none
  | _ => none

def block (indent : Nat) : (fuel : Nat) → List Token → Option (Program × List Token)
  | 0, _ => none
  | _, [] => some ([], [])
  | fuel + 1, .line start :: tokens =>
    if start < indent then some ([], .line start :: tokens)
    else if indent < start then none
    else
      match loopHead tokens with
      | some ((name, items), .line inner :: rest) =>
        if indent < inner then do
          let (body, after) ← block inner fuel (.line inner :: rest)
          let (statements, beyond) ← block indent fuel after
          return (.loop name items body :: statements, beyond)
        else none
      | some _ => none
      | none => do
        let (statement, after) ← simpleStatement tokens
        let (statements, beyond) ← block indent fuel after
        return (statement :: statements, beyond)
  | _, _ => none

end Source

def Program.ofText? (text : Bytes) : Option Program :=
  match Token.ofText? text with
  | none => none
  | some tokens =>
    match Source.block 0 (tokens.length + 1) tokens with
    | some (program, []) => some program
    | _ => none

end DocPrologue.Script
