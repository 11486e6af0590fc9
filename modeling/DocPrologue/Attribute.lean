import DocPrologue.Literal

/-!
Inner attributes. One that is named `doc` and has a string literal for its value carries
documentation; gaps may stand between its tokens.
-/

namespace DocPrologue.Attribute

inductive Fault where
  | literal (fault : Literal.Fault)
  | delimiterMismatch
  | unclosed
deriving DecidableEq, Repr

def mark : Bytes := [Byte.hash, Byte.bang]

def docName : Bytes := [0x64, 0x6F, 0x63]

def skipGap (text : Bytes) : Bytes := text.dropWhile Byte.isGap

def afterToken? (byte : UInt8) (text : Bytes) : Option Bytes :=
  match skipGap text with
  | [] => none
  | first :: rest => if first = byte then some rest else none

def body? (text : Bytes) : Option Bytes :=
  (Bytes.after? mark text).bind (afterToken? Byte.openBracket)

def literal? (body : Bytes) : Option Bytes := do
  let named ← Bytes.after? docName (skipGap body)
  if named.head?.any Byte.isWord then none
  else
    let value := skipGap (← afterToken? Byte.equals named)
    if Literal.isStart value then some value else none

/-- The text after the bracket that closes an attribute. `isRaw` tells whether its value is a raw
literal: then a hash is one too many. -/
def close (isRaw : Bool) (text : Bytes) : Except (Fault × Bytes) Bytes :=
  match skipGap text with
  | [] => .error (.unclosed, [])
  | byte :: rest =>
    if byte = Byte.closeBracket then .ok rest
    else if byte = Byte.hash ∧ isRaw then .error (.delimiterMismatch, byte :: rest)
    else .error (.unclosed, byte :: rest)

def read (value : Bytes) : Except (Fault × Bytes) (Bytes × Bytes) :=
  match Literal.read value with
  | .error (fault, spot) => .error (.literal fault, spot)
  | .ok (text, rest) =>
    match close (value.head? == some Literal.rawMark) rest with
    | .error problem => .error problem
    | .ok after => .ok (text, after)

theorem skipGap_length_le (text : Bytes) : (skipGap text).length ≤ text.length :=
  (List.dropWhile_suffix (p := Byte.isGap) (l := text)).length_le

theorem afterToken?_length {byte : UInt8} {text rest : Bytes}
    (found : afterToken? byte text = some rest) : rest.length < text.length := by
  have gap := skipGap_length_le text
  unfold afterToken? at found
  split at found
  · contradiction
  · rename_i shape
    rw [shape, List.length_cons] at gap
    split at found
    · simp only [Option.some.injEq] at found
      rw [← found]
      omega
    · contradiction

theorem after?_length_le {start text rest : Bytes} (found : Bytes.after? start text = some rest) :
    rest.length ≤ text.length := by
  fun_induction Bytes.after? start text with
  | case1 => simp_all
  | case2 => contradiction
  | case3 =>
    rename_i ih
    have bound := ih found
    simp only [List.length_cons]
    omega
  | case4 => contradiction

theorem body?_length {text body : Bytes} (found : body? text = some body) :
    body.length < text.length := by
  simp only [body?, Option.bind_eq_some_iff] at found
  obtain ⟨rest, marked, opened⟩ := found
  have first := after?_length_le marked
  have second := afterToken?_length opened
  omega

theorem literal?_length_le {body value : Bytes} (found : literal? body = some value) :
    value.length ≤ body.length := by
  simp only [literal?, bind, Option.bind_eq_some_iff] at found
  obtain ⟨named, isNamed, found⟩ := found
  split at found
  · contradiction
  · simp only [Option.bind_eq_some_iff] at found
    obtain ⟨rest, assigned, found⟩ := found
    split at found
    · simp only [Option.some.injEq] at found
      have first := after?_length_le isNamed
      have second := afterToken?_length assigned
      have third := skipGap_length_le rest
      have fourth := skipGap_length_le body
      rw [← found]
      omega
    · contradiction

theorem close_length {isRaw : Bool} {text rest : Bytes} (closed : close isRaw text = .ok rest) :
    rest.length < text.length := by
  have gap := skipGap_length_le text
  unfold close at closed
  split at closed
  · contradiction
  · rename_i shape
    rw [shape, List.length_cons] at gap
    repeat' split at closed
    · simp only [Except.ok.injEq] at closed
      rw [← closed]
      omega
    · contradiction
    · contradiction

theorem read_length {value text rest : Bytes} (done : read value = .ok (text, rest)) :
    rest.length < value.length := by
  unfold read at done
  split at done
  · contradiction
  · rename_i literal
    split at done
    · contradiction
    · rename_i closed
      simp only [Except.ok.injEq, Prod.mk.injEq] at done
      have first := Literal.read_length literal
      have second := close_length closed
      rw [← done.2]
      omega

end DocPrologue.Attribute
