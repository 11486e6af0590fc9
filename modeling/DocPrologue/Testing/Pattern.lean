import DocPrologue.FileTree
import DocPrologue.Text.Utf8

/-!
File name patterns: a star stands for any run of bytes without a slash, a question mark for one
character, brackets for one of some characters, and a backslash takes the meaning of what follows
away. A pattern that breaks off is refused only when matching comes to the segment in which it does.
-/

namespace DocPrologue.Testing

namespace Pattern

inductive Item where
  | star
  | anyChar
  | byte (value : UInt8)
  | oneOf (negated : Bool) (ranges : List (Nat × Nat))
  | malformed
deriving DecidableEq, Repr

structure Segment where
  star : Bool
  items : List Item
deriving DecidableEq, Repr

def Segment.isMalformed (segment : Segment) : Bool := segment.items.contains .malformed

def classChar? (text : Bytes) : Option (Nat × Bytes) :=
  let read := fun (text : Bytes) =>
    match text with
    | [] => none
    | lead :: rest =>
      match Text.readGlyph lead rest with
      | (.char code, after) => if after.isEmpty then none else some (code, after)
      | (.stray _, _) => none
  match text with
  | [] => none
  | first :: rest =>
    if first = Byte.dash ∨ first = Byte.closeBracket then none
    else if first = Byte.backslash then read rest
    else read (first :: rest)

def classRange? (text : Bytes) : Option ((Nat × Nat) × Bytes) :=
  match classChar? text with
  | none => none
  | some (low, rest) =>
    match rest with
    | [] => none
    | next :: more =>
      if next = Byte.dash then
        match classChar? more with
        | none => none
        | some (high, after) => some ((low, high), after)
      else some ((low, low), rest)

def classRanges? : (fuel : Nat) → (isFirst : Bool) → Bytes → Option (List (Nat × Nat) × Bytes)
  | 0, _, _ => none
  | fuel + 1, isFirst, text =>
    if !isFirst && text.head? == some Byte.closeBracket then some ([], text.tail)
    else
      match classRange? text with
      | none => none
      | some (range, rest) =>
        match classRanges? fuel false rest with
        | none => none
        | some (ranges, after) => some (range :: ranges, after)

def itemsOf : (fuel : Nat) → Bytes → List Item
  | 0, _ => []
  | fuel + 1, text =>
    match text with
    | [] => []
    | first :: rest =>
      if first = Byte.star then .star :: itemsOf fuel rest
      else if first = Byte.question then .anyChar :: itemsOf fuel rest
      else if first = Byte.openBracket then
        let negated := rest.head? == some Byte.caret
        match classRanges? (text.length + 1) true (if negated then rest.tail else rest) with
        | none => [.malformed]
        | some (ranges, after) => .oneOf negated ranges :: itemsOf fuel after
      else if first = Byte.backslash then
        match rest with
        | [] => [.malformed]
        | value :: after => .byte value :: itemsOf fuel after
      else .byte first :: itemsOf fuel rest

def items (pattern : Bytes) : List Item := itemsOf pattern.length pattern

def segments : List Item → List Segment
  | [] => []
  | .star :: rest =>
    match segments rest with
    | ⟨false, items⟩ :: more => ⟨true, items⟩ :: more
    | [] => [⟨true, []⟩]
    | more => more
  | item :: rest =>
    match segments rest with
    | ⟨false, items⟩ :: more => ⟨false, item :: items⟩ :: more
    | more => ⟨false, [item]⟩ :: more

def codeOf : Text.Glyph → Nat
  | .char code => code
  | .stray _ => 0xFFFD

def matchItems : List Item → Bytes → Option Bytes
  | [], name => some name
  | _ :: _, [] => none
  | .star :: _, _ | .malformed :: _, _ => none
  | .anyChar :: items, lead :: rest =>
    if lead = Byte.slash then none else matchItems items (Text.readGlyph lead rest).2
  | .byte value :: items, lead :: rest => if lead = value then matchItems items rest else none
  | .oneOf negated ranges :: items, lead :: rest =>
    let code := codeOf (Text.readGlyph lead rest).1
    if (ranges.any fun range => range.1 ≤ code && code ≤ range.2) == negated then none
    else matchItems items (Text.readGlyph lead rest).2

def acceptItems (isLast : Bool) (items : List Item) (name : Bytes) : Option Bytes :=
  match matchItems items name with
  | none => none
  | some rest => if isLast && !rest.isEmpty then none else some rest

def matchBehindStar (isLast : Bool) (items : List Item) : Bytes → Option Bytes
  | [] => acceptItems isLast items []
  | byte :: rest =>
    match acceptItems isLast items (byte :: rest) with
    | some after => some after
    | none => if byte = Byte.slash then none else matchBehindStar isLast items rest

def matchSegments : List Segment → Bytes → Option Bool
  | [], name => some name.isEmpty
  | segment :: more, name =>
    if segment.isMalformed then none
    else if segment.star && segment.items.isEmpty then some (!name.contains Byte.slash)
    else
      match
        if segment.star then matchBehindStar more.isEmpty segment.items name
        else acceptItems more.isEmpty segment.items name with
      | none => some false
      | some rest => matchSegments more rest

def matchesName (pattern name : Bytes) : Option Bool :=
  matchSegments (segments (items pattern)) name

def hasMeaning (pattern : Bytes) : Bool :=
  pattern.any fun byte =>
    byte == Byte.star || byte == Byte.question || byte == Byte.openBracket || byte == Byte.backslash

end Pattern

def matchesAmong (pattern directory : Bytes) : List Bytes → Option (List Bytes)
  | [] => some []
  | name :: names =>
    match Pattern.matchesName pattern name, matchesAmong pattern directory names with
    | some true, some paths => some (Path.join directory name :: paths)
    | some false, some paths => some paths
    | _, _ => none

def matchesIn (tree : FileTree) (pattern directory : Bytes) : Option (List Bytes) :=
  match tree.locate true directory with
  | .ok (.taken location .directory) =>
    matchesAmong pattern directory ((tree.names location).mergeSort Bytes.le)
  | _ => some []

def patternDirectory (pattern : Bytes) : Bytes :=
  match Path.upToSlash pattern with
  | [] => Path.current
  | [byte] => [byte]
  | text => text.dropLast

theorem patternDirectory_length {pattern : Bytes}
    (meaning : Pattern.hasMeaning (patternDirectory pattern) = true) :
    (patternDirectory pattern).length < pattern.length := by
  have bound : (Path.upToSlash pattern).length ≤ pattern.length := by
    have suffix := (List.dropWhile_suffix (p := (· != Byte.slash)) (l := pattern.reverse)).length_le
    simpa [Path.upToSlash] using suffix
  have ending : ∀ byte, Path.upToSlash pattern = [byte] → byte = Byte.slash := by
    intro byte single
    have reversed : pattern.reverse.dropWhile (· != Byte.slash) = [byte] := by
      have := congrArg List.reverse single
      simpa [Path.upToSlash] using this
    have head := List.head?_dropWhile_not (p := (· != Byte.slash)) (l := pattern.reverse)
    simp only [reversed, List.head?_cons] at head
    simpa using head
  unfold patternDirectory at meaning ⊢
  split at meaning
  · exact absurd meaning (by decide)
  · rename_i byte single
    rw [ending byte single] at meaning
    exact absurd meaning (by decide)
  · rename_i text notNil notSingle
    have positive : 0 < (Path.upToSlash pattern).length := List.length_pos_iff.mpr notNil
    simp only [List.length_dropLast]
    omega

def glob (tree : FileTree) (pattern : Bytes) : Option (List Bytes) :=
  match Pattern.matchesName pattern [] with
  | none => none
  | some _ =>
    if Pattern.hasMeaning pattern then
      if _inner : Pattern.hasMeaning (patternDirectory pattern) then
        match glob tree (patternDirectory pattern) with
        | none => none
        | some directories =>
          (directories.mapM (matchesIn tree (Path.lastPart pattern))).map List.flatten
      else matchesIn tree (Path.lastPart pattern) (patternDirectory pattern)
    else
      match tree.node? false pattern with
      | .ok _ => some [pattern]
      | .error _ => some []
termination_by pattern.length
decreasing_by exact patternDirectory_length _inner

end DocPrologue.Testing
