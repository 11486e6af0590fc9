import DocPrologue.Text.Quoted

/-!
Flags of a command line: one or two dashes, a name, and a value behind an equals sign or as the next
argument. A switch takes a value only behind an equals sign. Flags end at the first argument that is
none, and at a double dash.
-/

namespace DocPrologue

open Text (utf8 quote)

namespace Flag

inductive Kind where
  | text
  | switch
deriving DecidableEq, Repr

inductive Value where
  | text (value : Bytes)
  | switch (on : Bool)
deriving DecidableEq, Repr

end Flag

structure Flag where
  name : Bytes
  kind : Flag.Kind
  placeholder : Bytes
  help : Bytes
deriving DecidableEq, Repr

inductive FlagError where
  | badForm (argument : Bytes)
  | undefined (name : Bytes)
  | helpRequested
  | badSwitch (value name : Bytes)
  | needsArgument (name : Bytes)
deriving DecidableEq, Repr

def FlagError.message : FlagError → Bytes
  | badForm argument => utf8 "bad flag syntax: " ++ argument
  | undefined name => utf8 "flag provided but not defined: -" ++ name
  | helpRequested => utf8 "flag: help requested"
  | badSwitch value name =>
    utf8 "invalid boolean value " ++ quote value ++ utf8 " for -" ++ name ++ utf8 ": parse error"
  | needsArgument name => utf8 "flag needs an argument: -" ++ name

namespace Flag

abbrev Values := List (Bytes × Value)

def textOf (values : Values) (name : Bytes) : Bytes :=
  match values.lookup name with
  | some (.text value) => value
  | _ => []

def switchOf (values : Values) (name : Bytes) : Bool :=
  match values.lookup name with
  | some (.switch on) => on
  | _ => false

def switch? (text : Bytes) : Option Bool :=
  if text ∈ ["1", "t", "T", "TRUE", "true", "True"].map utf8 then some true
  else if text ∈ ["0", "f", "F", "FALSE", "false", "False"].map utf8 then some false
  else none

inductive Shape where
  | word
  | terminator
  | bad
  | flag (name : Bytes) (value : Option Bytes)
deriving DecidableEq, Repr

def nameAndValue : Bytes → Shape
  | [] => .bad
  | first :: rest =>
    if first = Byte.dash ∨ first = Byte.equals then .bad
    else
      match rest.dropWhile (· != Byte.equals) with
      | [] => .flag (first :: rest) none
      | _ :: value => .flag (first :: rest.takeWhile (· != Byte.equals)) (some value)

def shapeOf : Bytes → Shape
  | first :: second :: rest =>
    if first = Byte.dash then
      if second = Byte.dash then
        if rest.isEmpty then .terminator else nameAndValue rest
      else nameAndValue (second :: rest)
    else .word
  | _ => .word

structure Parsed where
  values : Values
  arguments : List Bytes
  error : Option FlagError
deriving DecidableEq, Repr

def parse (flags : List Flag) (values : Values) : List Bytes → Parsed
  | [] => ⟨values, [], none⟩
  | argument :: rest =>
    match shapeOf argument with
    | .word => ⟨values, argument :: rest, none⟩
    | .terminator => ⟨values, rest, none⟩
    | .bad => ⟨values, rest, some (.badForm argument)⟩
    | .flag name value =>
      match flags.find? (·.name == name) with
      | none =>
        if name = utf8 "help" ∨ name = utf8 "h" then ⟨values, rest, some .helpRequested⟩
        else ⟨values, rest, some (.undefined name)⟩
      | some flag =>
        match flag.kind, value with
        | .switch, none => parse flags ((name, .switch true) :: values) rest
        | .switch, some text =>
          match switch? text with
          | some on => parse flags ((name, .switch on) :: values) rest
          | none => ⟨(name, .switch false) :: values, rest, some (.badSwitch text name)⟩
        | .text, some text => parse flags ((name, .text text) :: values) rest
        | .text, none =>
          match rest with
          | [] => ⟨values, [], some (.needsArgument name)⟩
          | text :: rest => parse flags ((name, .text text) :: values) rest

def indent : Bytes := utf8 "\n    \t"

def helpText (flag : Flag) : Bytes :=
  let start := utf8 "  -" ++ flag.name ++
    (if flag.placeholder.isEmpty then [] else Byte.space :: flag.placeholder)
  start ++ (if start.length ≤ 4 then [Byte.tab] else indent) ++
    Bytes.join indent (Bytes.split Byte.lf flag.help) ++ [Byte.lf]

def helpTexts (flags : List Flag) : Bytes :=
  (flags.mergeSort fun left right => Bytes.le left.name right.name).flatMap helpText

end Flag

end DocPrologue
