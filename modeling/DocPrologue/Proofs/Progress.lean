import DocPrologue.Proofs.Regions
import DocPrologue.Proofs.Scan

/-!
Where calls lead a cursor. It goes from line to line of its source: reading a region moves it behind
the last line of that region, and whatever is no region leaves it where it is. So a scan ends after
at most one turn for each byte.
-/

namespace DocPrologue

theorem Place.offset_advance (place : Place) (passed : Bytes) :
    (place.advance passed).offset = place.offset + passed.length := by
  induction passed generalizing place with
  | nil => rfl
  | cons byte passed ih =>
      have first : (place.step byte).offset = place.offset + 1 := by
        unfold step
        split <;> rfl
      have rest := ih (place.step byte)
      rw [first] at rest
      rw [List.length_cons]
      exact rest.trans (by omega)

namespace Cursor

inductive Call where
  | peek
  | next
deriving DecidableEq, Repr

def after (cursor : Cursor) : Call → Cursor
  | .peek => cursor
  | .next =>
    match cursor.next with
    | .ok (_, behind) => behind
    | .error _ => cursor

def afterAll (cursor : Cursor) (calls : List Call) : Cursor := calls.foldl after cursor

def passed? (cursor : Cursor) : Call → Option (Region × Nat)
  | .peek => none
  | .next =>
    match cursor.next with
    | .ok (region, behind) =>
      if region.form = .endOfInput ∨ region.form = .code then none
      else some (region, behind.place.offset)
    | .error _ => none

def ranges (cursor : Cursor) : List Call → List (Region × Nat)
  | [] => []
  | call :: calls => (cursor.passed? call).toList ++ ranges (cursor.after call) calls

inductive Contiguous (source : Bytes) : Nat → List (Region × Nat) → Nat → Prop
  | nil (offset : Nat) : Contiguous source offset [] offset
  | cons {start stop last : Nat} {region : Region} {ranges : List (Region × Nat)} :
      region.position.offset = start → start < stop → stop ≤ source.length →
      (source.take stop).getLast? = some Byte.lf ∨ stop = source.length →
      Contiguous source stop ranges last → Contiguous source start ((region, stop) :: ranges) last

structure Placed (cursor : Cursor) (source : Bytes) : Prop where
  within : cursor.place.offset ≤ source.length
  rest : cursor.rest = source.drop cursor.place.offset
  boundary : cursor.place.offset = markLength source ∨
    (source.take cursor.place.offset).getLast? = some Byte.lf ∨
    cursor.place.offset = source.length

structure InBounds (cursor : Cursor) (source : Bytes) : Prop where
  lineMark : cursor.peek = .lineComment →
    Comment.lineMark.length ≤ (Bytes.line cursor.rest).length
  blockMark : cursor.peek = .blockComment → Comment.blockMark.length ≤ cursor.rest.length
  blockBody : ∀ text length, Comment.bodyLength? text = some length → length + 2 ≤ text.length
  body : ∀ body, Attribute.body? cursor.rest = some body → body <:+ cursor.rest
  value : ∀ value, (Attribute.body? cursor.rest).bind Attribute.literal? = some value →
    value ≠ [] ∧ value <:+ cursor.rest
  raw : ∀ hashes text length, Bytes.find? (Literal.closing hashes) text = some length →
    length + hashes + 1 ≤ text.length
  literal : ∀ value text tail, Literal.read value = .ok (text, tail) → tail <:+ value
  closed : ∀ value text tail, Attribute.read value = .ok (text, tail) → tail <:+ value
  fault : ∀ error, cursor.next = .error error →
    cursor.place.offset ≤ error.position.offset ∧ error.position.offset ≤ source.length

structure Advances (cursor : Cursor) : Prop where
  peek : cursor.after .peek = cursor
  stays : cursor.after .next = cursor ↔ ∀ region behind, cursor.next = .ok (region, behind) →
    region.form = .endOfInput ∨ region.form = .code
  moves : cursor.after .next ≠ cursor → cursor.place.offset < (cursor.after .next).place.offset
  form : ∀ region behind, cursor.next = .ok (region, behind) →
    region.form = cursor.peek ∨ cursor.peek = .docAttribute ∧ region.form = .code

variable {cursor behind : Cursor} {region : Region}

theorem Passage.position (passage : Passage cursor region behind) :
    region.position = cursor.position := by
  cases passage <;> rfl

theorem stays_or_takes (read : cursor.next = .ok (region, behind)) :
    (region.form = .endOfInput ∨ region.form = .code) ∧ behind = cursor ∨
      ¬(region.form = .endOfInput ∨ region.form = .code) ∧
        ∃ used, Takes cursor region behind used := by
  have passage := next_eq_ok_iff.mp read
  by_cases form : region.form = .endOfInput ∨ region.form = .code
  · refine .inl ⟨form, ?_⟩
    cases passage with
    | endOfInput _ => rfl
    | code _ => rfl
    | otherAttribute _ _ => rfl
    | blank _ => simp at form
    | lineComment _ => simp at form
    | blockComment _ _ => simp at form
    | docAttribute _ _ _ => simp at form
  · have passes := not_or.mp form
    exact .inr ⟨form, passage.takes passes.1 passes.2⟩

theorem Takes.offset {used : Bytes} (takes : Takes cursor region behind used) :
    behind.place.offset = cursor.place.offset + used.length := by
  rw [takes.place, Place.offset_advance]

theorem Takes.moves {used : Bytes} (takes : Takes cursor region behind used) :
    cursor.place.offset < behind.place.offset := by
  have positive := List.length_pos_iff.mpr takes.nonempty
  have offset := takes.offset
  omega

theorem advances (cursor : Cursor) : cursor.Advances where
  peek := rfl
  stays := by
    cases read : cursor.next with
    | error error => simp [after, read]
    | ok result =>
        obtain ⟨region, behind⟩ := result
        have moved : cursor.after .next = behind := by simp only [after, read]
        rw [moved]
        rcases stays_or_takes read with ⟨form, same⟩ | ⟨form, used, takes⟩
        · simp [same, form]
        · have moves := takes.moves
          have differs : behind ≠ cursor := by
            rintro rfl
            omega
          simp [differs, form]
  moves := by
    intro moved
    cases read : cursor.next with
    | error error => simp [after, read] at moved
    | ok result =>
        obtain ⟨region, behind⟩ := result
        have next : cursor.after .next = behind := by simp only [after, read]
        rw [next] at moved ⊢
        rcases stays_or_takes read with ⟨-, same⟩ | ⟨-, used, takes⟩
        · exact absurd same moved
        · exact takes.moves
  form := fun _ _ read => (next_eq_ok_iff.mp read).form

variable {name source passed : Bytes}

theorem Stands.offset (stands : cursor.Stands name source passed) :
    cursor.place.offset = passed.length := by
  rw [stands.place, Place.offset_advance]
  exact Nat.zero_add _

theorem Stands.length (stands : cursor.Stands name source passed) :
    source.length = cursor.place.offset + cursor.rest.length := by
  rw [stands.offset, stands.whole, List.length_append]

theorem Stands.front (stands : cursor.Stands name source passed) :
    source.take cursor.place.offset = passed := by
  rw [stands.offset, stands.whole, List.take_left]

theorem Stands.placed (stands : cursor.Stands name source passed) : cursor.Placed source := by
  have length := stands.length
  refine ⟨by omega, ?_, ?_⟩
  · rw [stands.offset, stands.whole, List.drop_left]
  · rw [stands.front, stands.offset]
    rcases stands.boundary with mark | ended | empty
    · exact .inl mark
    · exact .inr (.inl ended)
    · rw [empty, List.length_nil, stands.offset] at length
      exact .inr (.inr length.symm)

theorem Stands.after (stands : cursor.Stands name source passed) (call : Call) :
    ∃ more, (cursor.after call).Stands name source (passed ++ more) := by
  have stays : cursor.Stands name source (passed ++ []) := by rwa [List.append_nil]
  cases call with
  | peek => exact ⟨[], stays⟩
  | next =>
      cases read : cursor.next with
      | error error =>
          simp only [Cursor.after, read]
          exact ⟨[], stays⟩
      | ok result =>
          obtain ⟨region, behind⟩ := result
          simp only [Cursor.after, read]
          rcases stays_or_takes read with ⟨-, rfl⟩ | ⟨-, used, takes⟩
          · exact ⟨[], stays⟩
          · exact ⟨used, stands.takes takes⟩

theorem Stands.passes (stands : cursor.Stands name source passed) (call : Call) :
    cursor.passed? call = none ∧ cursor.after call = cursor ∨
      ∃ region, cursor.passed? call = some (region, (cursor.after call).place.offset) ∧
        region.position.offset = cursor.place.offset ∧
        cursor.place.offset < (cursor.after call).place.offset ∧
        ((source.take (cursor.after call).place.offset).getLast? = some Byte.lf ∨
          (cursor.after call).place.offset = source.length) := by
  cases call with
  | peek => exact .inl ⟨rfl, rfl⟩
  | next =>
      cases read : cursor.next with
      | error error => exact .inl (by simp [passed?, Cursor.after, read])
      | ok result =>
          obtain ⟨region, behind⟩ := result
          simp only [passed?, Cursor.after, read]
          rcases stays_or_takes read with ⟨form, same⟩ | ⟨form, used, takes⟩
          · exact .inl ⟨if_pos form, same⟩
          · have next := stands.takes takes
            refine .inr ⟨region, if_neg form, ?_, takes.moves, ?_⟩
            · rw [(next_eq_ok_iff.mp read).position]
              rfl
            · rw [next.front, List.getLast?_append]
              rcases takes.ended with ended | empty
              · exact .inl (by rw [ended, Option.some_or])
              · have length := next.length
                rw [empty, List.length_nil] at length
                exact .inr (by omega)

theorem Stands.contiguous (stands : cursor.Stands name source passed) (calls : List Call) :
    Contiguous source cursor.place.offset (cursor.ranges calls)
      (cursor.afterAll calls).place.offset := by
  induction calls generalizing cursor passed with
  | nil => exact .nil _
  | cons call calls ih =>
      obtain ⟨more, next⟩ := stands.after call
      have joined := ih next
      have last : cursor.afterAll (call :: calls) = (cursor.after call).afterAll calls := rfl
      rw [ranges, last]
      rcases stands.passes call with ⟨none, same⟩ | ⟨region, found, start, moves, ended⟩
      · rw [same] at joined
        rw [none, same]
        exact joined
      · rw [found]
        exact .cons start moves next.placed.within ended joined

theorem Stands.afterAll (stands : cursor.Stands name source passed) (calls : List Call) :
    ∃ more, (cursor.afterAll calls).Stands name source (passed ++ more) := by
  induction calls generalizing cursor passed with
  | nil => exact ⟨[], by rwa [List.append_nil]⟩
  | cons call calls ih =>
      obtain ⟨used, next⟩ := stands.after call
      obtain ⟨more, last⟩ := ih next
      exact ⟨used ++ more, by rwa [List.append_assoc] at last⟩

theorem positionOf_rest (cursor : Cursor) : cursor.positionOf cursor.rest = cursor.position := by
  rw [positionOf, Place.advanceTo, Nat.sub_self]
  rfl

theorem next_fault {error : Malformed} (failed : cursor.next = .error error) :
    ∃ spot, spot <:+ cursor.rest ∧ error.position = cursor.positionOf spot := by
  unfold next at failed
  split at failed
  case h_1 => contradiction
  case h_2 => contradiction
  case h_3 => contradiction
  case h_4 => contradiction
  case h_5 =>
      refine ⟨cursor.rest, List.suffix_rfl, ?_⟩
      unfold nextBlock at failed
      simp only at failed
      split at failed
      · rw [← Except.error.inj failed, positionOf_rest]
      · contradiction
  case h_6 =>
      unfold nextAttribute at failed
      split at failed
      · contradiction
      · rename_i value found
        obtain ⟨body, opened, literal⟩ := Option.bind_eq_some_iff.mp found
        split at failed
        · rename_i fault spot read
          refine ⟨spot, ?_, by rw [← Except.error.inj failed]⟩
          exact (Attribute.read_fault read).trans
            ((Attribute.literal?_suffix literal).trans (Attribute.body?_suffix opened))
        · contradiction

theorem Stands.inBounds (stands : cursor.Stands name source passed) :
    cursor.InBounds source where
  lineMark := by
    intro form
    have marked := (peek_eq_lineComment_iff cursor).mp form
    rw [← Bytes.startsWith_line _ _ (by decide) (by decide)] at marked
    obtain ⟨rest, shape⟩ := Bytes.startsWith_iff.mp marked
    rw [shape, List.length_append]
    omega
  blockMark := by
    intro form
    obtain ⟨rest, shape⟩ := Bytes.startsWith_iff.mp ((peek_eq_blockComment_iff cursor).mp form)
    rw [shape, List.length_append]
    omega
  blockBody := by
    intro text length found
    obtain ⟨body, after, rfl, placed, -⟩ := Comment.closeFrom_split found
    simp only [List.length_append, List.length_cons]
    omega
  body := fun _ => Attribute.body?_suffix
  value := by
    intro value found
    obtain ⟨body, opened, literal⟩ := Option.bind_eq_some_iff.mp found
    refine ⟨?_, (Attribute.literal?_suffix literal).trans (Attribute.body?_suffix opened)⟩
    rintro rfl
    have start := (Attribute.literal?_eq_some_iff.mp literal).1
    contradiction
  raw := by
    intro hashes text length found
    obtain ⟨content, after, rfl, placed, -⟩ := Bytes.findFrom_split found
    simp only [Literal.closing, List.length_append, List.length_cons, List.length_replicate]
    omega
  literal := by
    intro value text tail done
    obtain ⟨used, rfl, -⟩ := Literal.read_reads done
    exact List.suffix_append used tail
  closed := by
    intro value text tail done
    obtain ⟨used, rfl, -⟩ := Attribute.read_reads done
    exact List.suffix_append used tail
  fault := by
    intro error failed
    obtain ⟨spot, ⟨used, shape⟩, place⟩ := next_fault failed
    have length := stands.length
    have rest := congrArg List.length shape
    have offset : error.position.offset = cursor.place.offset + used.length := by
      rw [place, positionOf, ← shape, Place.advanceTo_append, Position.ofPlace,
        Place.offset_advance]
      rfl
    rw [List.length_append] at rest
    omega

end Cursor

open Block (Scan)

/-- Whatever is asked of a cursor, it stands at a line of its source, reads within the source and
passes regions that join; reading moves it on unless it fails or finds no region. So a scan ends. -/
theorem Cursor.calls_progress (name source : Bytes) (calls : List Call) :
    let start := ofSource name source
    let last := start.afterAll calls
    last.Placed source ∧ last.InBounds source ∧ last.Advances ∧
      Contiguous source start.place.offset (start.ranges calls) last.place.offset ∧
      ∃ turns scan, Scan.Runs turns (Scan.start name source) scan ∧ turns ≤ source.length ∧
        ∀ next, scan.turn ≠ .goOn next := by
  intro start last
  obtain ⟨passed, stands⟩ := ofSource_stands name source
  obtain ⟨more, reached⟩ := stands.afterAll calls
  refine ⟨reached.placed, reached.inBounds, advances last, stands.contiguous calls, ?_⟩
  obtain ⟨turns, scan, run, ended⟩ := (Scan.start name source).exists_last
  have bound := run.length
  have length := stands.length
  exact ⟨turns, scan, run, by simp only [Scan.start] at bound; omega, ended⟩

end DocPrologue
