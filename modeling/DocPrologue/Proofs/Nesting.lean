import DocPrologue.Proofs.Progress
import Mathlib.Logic.Relation

/-!
Where block comments end. The text of a comment is read as marks and single bytes; the comment ends
at the closing mark in front of which every mark has its partner. The search for that mark counts
the comments that are open, so it stops there and nowhere else.
-/

namespace DocPrologue

namespace Comment

inductive Token where
  | opening
  | closing
  | byte (byte : UInt8)
deriving DecidableEq, Repr

def Token.text : Token → Bytes
  | .opening => [Byte.slash, Byte.star]
  | .closing => [Byte.star, Byte.slash]
  | .byte value => [value]

def tokens : Bytes → List Token
  | first :: second :: rest =>
    if first = Byte.slash ∧ second = Byte.star then .opening :: tokens rest
    else if first = Byte.star ∧ second = Byte.slash then .closing :: tokens rest
    else .byte first :: tokens (second :: rest)
  | [byte] => [.byte byte]
  | [] => []

def size (tokens : List Token) : Nat := (tokens.flatMap Token.text).length

inductive Balanced : List Token → Prop
  | nil : Balanced []
  | byte (byte : UInt8) {rest : List Token} : Balanced rest → Balanced (.byte byte :: rest)
  | pair {inside rest : List Token} : Balanced inside → Balanced rest →
      Balanced (.opening :: (inside ++ .closing :: rest))

/-- So many comments are open behind the tokens: this many opening marks have no partner, and what
stands around them is balanced. -/
inductive Opened : Nat → List Token → Prop
  | balanced {tokens : List Token} : Balanced tokens → Opened 0 tokens
  | opening {count : Nat} {outside inside : List Token} : Opened count outside → Balanced inside →
      Opened (count + 1) (outside ++ .opening :: inside)

def ClosesAt (text : Bytes) (length : Nat) : Prop :=
  ∃ before after, tokens text = before ++ .closing :: after ∧ Balanced before ∧
    length = size before

section Tokens

variable {first second byte : UInt8} {text rest : Bytes} {others before after : List Token}

theorem tokens_open (rest : Bytes) :
    tokens (Byte.slash :: Byte.star :: rest) = .opening :: tokens rest := by
  rw [tokens, if_pos ⟨rfl, rfl⟩]

theorem tokens_close (rest : Bytes) :
    tokens (Byte.star :: Byte.slash :: rest) = .closing :: tokens rest := by
  rw [tokens, if_neg (by decide), if_pos ⟨rfl, rfl⟩]

theorem tokens_byte (rest : Bytes) (noOpen : ¬(first = Byte.slash ∧ second = Byte.star))
    (noClose : ¬(first = Byte.star ∧ second = Byte.slash)) :
    tokens (first :: second :: rest) = .byte first :: tokens (second :: rest) := by
  rw [tokens, if_neg noOpen, if_neg noClose]

theorem flatMap_tokens (text : Bytes) : (tokens text).flatMap Token.text = text := by
  fun_induction tokens text with
  | case1 first second rest opens ih =>
      obtain ⟨rfl, rfl⟩ := opens
      rw [List.flatMap_cons, ih]
      rfl
  | case2 first second rest _ closes ih =>
      obtain ⟨rfl, rfl⟩ := closes
      rw [List.flatMap_cons, ih]
      rfl
  | case3 first second rest _ _ ih =>
      rw [List.flatMap_cons, ih]
      rfl
  | case4 byte => rfl
  | case5 => rfl

theorem tokens_cases (text : Bytes) :
    text = [] ∨ (∃ rest, text = Byte.slash :: Byte.star :: rest) ∨
      (∃ rest, text = Byte.star :: Byte.slash :: rest) ∨
      ∃ byte rest, tokens text = .byte byte :: tokens rest ∧
        ∀ inner passed, closeFrom inner passed text = closeFrom inner (passed + 1) rest := by
  fun_cases tokens text with
  | case1 first second rest opens => exact .inr (.inl ⟨rest, by rw [opens.1, opens.2]⟩)
  | case2 first second rest _ closes =>
      exact .inr (.inr (.inl ⟨rest, by rw [closes.1, closes.2]⟩))
  | case3 first second rest noOpen noClose =>
      exact .inr (.inr (.inr ⟨first, second :: rest, rfl,
        fun inner passed => closeFrom_byte inner passed rest noOpen noClose⟩))
  | case4 byte => exact .inr (.inr (.inr ⟨byte, [], rfl, fun _ _ => rfl⟩))
  | case5 => exact .inl rfl

theorem tokens_eq_opening (shape : tokens text = .opening :: others) :
    ∃ rest, text = Byte.slash :: Byte.star :: rest ∧ tokens rest = others := by
  rcases tokens_cases text with rfl | ⟨rest, rfl⟩ | ⟨rest, rfl⟩ | ⟨first, rest, starts, -⟩
  · simp [tokens] at shape
  · rw [tokens_open] at shape
    exact ⟨rest, rfl, (List.cons.inj shape).2⟩
  · simp [tokens_close] at shape
  · simp [starts] at shape

theorem tokens_eq_closing (shape : tokens text = .closing :: others) :
    ∃ rest, text = Byte.star :: Byte.slash :: rest ∧ tokens rest = others := by
  rcases tokens_cases text with rfl | ⟨rest, rfl⟩ | ⟨rest, rfl⟩ | ⟨first, rest, starts, -⟩
  · simp [tokens] at shape
  · simp [tokens_open] at shape
  · rw [tokens_close] at shape
    exact ⟨rest, rfl, (List.cons.inj shape).2⟩
  · simp [starts] at shape

theorem tokens_eq_byte (shape : tokens text = .byte byte :: others) :
    ∃ rest, tokens rest = others ∧
      ∀ inner passed, closeFrom inner passed text = closeFrom inner (passed + 1) rest := by
  rcases tokens_cases text with rfl | ⟨rest, rfl⟩ | ⟨rest, rfl⟩ | ⟨first, rest, starts, passes⟩
  · simp [tokens] at shape
  · simp [tokens_open] at shape
  · simp [tokens_close] at shape
  · rw [starts] at shape
    exact ⟨rest, (List.cons.inj shape).2, passes⟩

theorem size_append (before after : List Token) :
    size (before ++ after) = size before + size after := by
  rw [size, List.flatMap_append, List.length_append]
  rfl

theorem closeFrom_balanced (balanced : Balanced before) (shape : tokens text = before ++ after)
    (inner passed : Nat) :
    ∃ rest, tokens rest = after ∧
      closeFrom inner passed text = closeFrom inner (passed + size before) rest := by
  induction balanced generalizing text after inner passed with
  | nil => exact ⟨text, shape, rfl⟩
  | @byte byte rest _ ih =>
      obtain ⟨behind, behindShape, passes⟩ := tokens_eq_byte shape
      obtain ⟨last, lastShape, same⟩ := ih behindShape inner (passed + 1)
      have total : passed + 1 + size rest = passed + size (.byte byte :: rest) := by
        simp only [size, List.flatMap_cons, List.length_append, Token.text, List.length_cons,
          List.length_nil]
        omega
      exact ⟨last, lastShape, by rw [passes, same, total]⟩
  | @pair inside rest _ _ ihInside ihRest =>
      rw [List.cons_append, List.append_assoc] at shape
      obtain ⟨behind, rfl, behindShape⟩ := tokens_eq_opening shape
      obtain ⟨closing, closingShape, within⟩ := ihInside behindShape (inner + 1) (passed + 2)
      obtain ⟨outside, rfl, outsideShape⟩ := tokens_eq_closing closingShape
      obtain ⟨last, lastShape, same⟩ := ihRest outsideShape inner
        (passed + 2 + size inside + 2)
      have total : passed + 2 + size inside + 2 + size rest =
          passed + size (.opening :: (inside ++ .closing :: rest)) := by
        simp only [size, List.flatMap_cons, List.flatMap_append, List.length_append, Token.text,
          List.length_cons, List.length_nil]
        omega
      exact ⟨last, lastShape, by
        rw [closeFrom_open, within, closeFrom_close_inner, same, total]⟩

end Tokens

section Open

variable {count : Nat} {read more : List Token}

theorem Balanced.append (first : Balanced read) (second : Balanced more) :
    Balanced (read ++ more) := by
  induction first with
  | nil => exact second
  | byte byte _ ih => exact .byte byte ih
  | pair inside _ _ ih =>
      rw [List.cons_append, List.append_assoc, List.cons_append]
      exact .pair inside ih

theorem Opened.append (opened : Opened count read) (balanced : Balanced more) :
    Opened count (read ++ more) := by
  cases opened with
  | balanced first => exact .balanced (first.append balanced)
  | opening outside inside =>
      rw [List.append_assoc, List.cons_append]
      exact .opening outside (inside.append balanced)

theorem Opened.open (opened : Opened count read) : Opened (count + 1) (read ++ [.opening]) :=
  .opening opened .nil

theorem Opened.close (opened : Opened (count + 1) read) : Opened count (read ++ [.closing]) := by
  cases opened with
  | @opening _ outside inside opened balanced =>
      rw [List.append_assoc, List.cons_append]
      exact opened.append (.pair balanced .nil)

theorem Balanced.count_eq (balanced : Balanced read) :
    read.count .opening = read.count .closing := by
  induction balanced with
  | nil => rfl
  | byte byte _ ih => simpa using ih
  | pair _ _ ihInside ihRest =>
      simp only [List.count_cons, List.count_append, ihInside, ihRest]
      simp
      omega

theorem Opened.count_eq (opened : Opened count read) :
    read.count .opening = count + read.count .closing := by
  induction opened with
  | balanced balanced => rw [balanced.count_eq, Nat.zero_add]
  | opening _ inside ih =>
      simp only [List.count_append, List.count_cons, inside.count_eq, ih]
      simp
      omega

end Open

structure Search where
  inner : Nat
  passed : Nat
  rest : Bytes

namespace Search

variable {search next last : Search} {text : Bytes} {read : List Token}

def result (search : Search) : Option Nat := closeFrom search.inner search.passed search.rest

inductive Turn : Search → Search → Prop
  | opening (inner passed : Nat) (rest : Bytes) :
      Turn ⟨inner, passed, Byte.slash :: Byte.star :: rest⟩ ⟨inner + 1, passed + 2, rest⟩
  | closing (outer passed : Nat) (rest : Bytes) :
      Turn ⟨outer + 1, passed, Byte.star :: Byte.slash :: rest⟩ ⟨outer, passed + 2, rest⟩
  | byte (inner passed : Nat) {first second : UInt8} (rest : Bytes) :
      ¬(first = Byte.slash ∧ second = Byte.star) → ¬(first = Byte.star ∧ second = Byte.slash) →
      Turn ⟨inner, passed, first :: second :: rest⟩ ⟨inner, passed + 1, second :: rest⟩

theorem Turn.result (turn : Turn search next) : search.result = next.result := by
  cases turn with
  | opening inner passed rest => exact closeFrom_open inner passed rest
  | closing outer passed rest => exact closeFrom_close_inner outer passed rest
  | byte inner passed rest noOpen noClose =>
      exact closeFrom_byte inner passed rest noOpen noClose

theorem Turn.length (turn : Turn search next) : next.rest.length < search.rest.length := by
  cases turn with
  | opening inner passed rest =>
      simp only [List.length_cons]
      omega
  | closing outer passed rest =>
      simp only [List.length_cons]
      omega
  | byte inner passed rest _ _ => simp

theorem turn_or_stops (search : Search) :
    (∃ next, Turn search next) ∨ search.result = none ∨
      ∃ after, search.inner = 0 ∧ search.rest = Byte.star :: Byte.slash :: after ∧
        search.result = some search.passed := by
  obtain ⟨inner, passed, text⟩ := search
  fun_cases closeFrom inner passed text with
  | case1 inner first second rest opens =>
      obtain ⟨rfl, rfl⟩ := opens
      exact .inl ⟨_, .opening inner passed rest⟩
  | case2 first second rest _ closes =>
      obtain ⟨rfl, rfl⟩ := closes
      exact .inr (.inr ⟨rest, rfl, rfl, closeFrom_close passed rest⟩)
  | case3 first second rest _ closes outer =>
      obtain ⟨rfl, rfl⟩ := closes
      exact .inl ⟨_, .closing outer passed rest⟩
  | case4 inner first second rest noOpen noClose =>
      exact .inl ⟨_, .byte inner passed rest noOpen noClose⟩
  | case5 inner text short => exact .inr (.inl (closeFrom.eq_3 inner passed text short))

structure Counts (search : Search) (text : Bytes) (read : List Token) : Prop where
  tokens : tokens text = read ++ tokens search.rest
  passed : search.passed = size read
  opened : Opened search.inner read

theorem counts_start (text : Bytes) : Counts ⟨0, 0, text⟩ text [] :=
  ⟨rfl, rfl, .balanced .nil⟩

theorem Counts.turn (counts : Counts search text read) (turn : Turn search next) :
    ∃ token, Counts next text (read ++ [token]) := by
  obtain ⟨tokens, passed, opened⟩ := counts
  cases turn with
  | opening inner before rest =>
      refine ⟨.opening, ?_, ?_, opened.open⟩
      · rw [tokens, tokens_open, List.append_assoc, List.singleton_append]
      · rw [size_append, ← passed]
        rfl
  | closing outer before rest =>
      refine ⟨.closing, ?_, ?_, opened.close⟩
      · rw [tokens, tokens_close, List.append_assoc, List.singleton_append]
      · rw [size_append, ← passed]
        rfl
  | @byte inner before first second rest noOpen noClose =>
      refine ⟨.byte first, ?_, ?_, opened.append (.byte first .nil)⟩
      · rw [tokens, tokens_byte rest noOpen noClose, List.append_assoc, List.singleton_append]
      · rw [size_append, ← passed]
        rfl

/-- At every step of a search its counter is the number of open comments, and its result is still
that of the whole search. -/
theorem counts_run (run : Relation.ReflTransGen Turn ⟨0, 0, text⟩ search) :
    search.result = bodyLength? text ∧ ∃ read, Counts search text read := by
  induction run with
  | refl => exact ⟨rfl, [], counts_start text⟩
  | tail _ turn ih =>
      obtain ⟨same, read, counts⟩ := ih
      obtain ⟨token, further⟩ := counts.turn turn
      exact ⟨turn.result.symm.trans same, _, further⟩

theorem exists_last (search : Search) :
    ∃ last, Relation.ReflTransGen Turn search last ∧ ∀ next, ¬Turn last next := by
  induction length : search.rest.length using Nat.strongRecOn generalizing search with
  | ind length ih =>
      by_cases goesOn : ∃ next, Turn search next
      · obtain ⟨next, turn⟩ := goesOn
        obtain ⟨last, run, ended⟩ := ih next.rest.length (length ▸ turn.length) next rfl
        exact ⟨last, .head turn run, ended⟩
      · exact ⟨search, .refl, not_exists.mp goesOn⟩

end Search

variable {text : Bytes} {length other : Nat}

theorem closesAt_of_bodyLength? (found : bodyLength? text = some length) :
    ClosesAt text length := by
  obtain ⟨last, run, ended⟩ := Search.exists_last ⟨0, 0, text⟩
  obtain ⟨same, read, counts⟩ := Search.counts_run run
  rw [found] at same
  rcases last.turn_or_stops with ⟨next, turn⟩ | none | ⟨after, noneOpen, shape, stops⟩
  · exact absurd turn (ended next)
  · rw [none] at same
    contradiction
  · -- The search stops at a closing mark with no comment open, so what it has read is balanced.
    have opened := counts.opened
    rw [noneOpen] at opened
    cases opened with
    | balanced balanced =>
        refine ⟨read, tokens after, ?_, balanced, ?_⟩
        · rw [counts.tokens, shape, tokens_close]
        · rw [← counts.passed]
          exact Option.some.inj (same.symm.trans stops)

theorem bodyLength?_of_closesAt (closes : ClosesAt text length) :
    bodyLength? text = some length := by
  obtain ⟨before, after, shape, balanced, rfl⟩ := closes
  obtain ⟨rest, restShape, same⟩ := closeFrom_balanced balanced shape 0 0
  obtain ⟨behind, rfl, -⟩ := tokens_eq_closing restShape
  rw [bodyLength?, same, closeFrom_close, Nat.zero_add]

theorem bodyLength?_eq_some_iff : bodyLength? text = some length ↔ ClosesAt text length :=
  ⟨closesAt_of_bodyLength?, bodyLength?_of_closesAt⟩

theorem bodyLength?_eq_none_iff : bodyLength? text = none ↔ ∀ length, ¬ClosesAt text length := by
  simp only [Option.eq_none_iff_forall_ne_some, ne_eq, bodyLength?_eq_some_iff]

theorem ClosesAt.unique (first : ClosesAt text length) (second : ClosesAt text other) :
    length = other :=
  Option.some.inj ((bodyLength?_of_closesAt first).symm.trans (bodyLength?_of_closesAt second))

end Comment

namespace Cursor

open Comment (ClosesAt Search bodyLength?)

theorem next_of_blockMark {cursor : Cursor}
    (marked : Bytes.startsWith Comment.blockMark cursor.rest = true) :
    cursor.next = cursor.nextBlock := by
  rw [next, (peek_eq_blockComment_iff cursor).mpr marked]

/-- A block comment ends where its nesting balances: in front of the closing mark there every mark
has its partner, no other place is like that, and the search counts the open comments all along.
Without such a place the comment is malformed, and the cursor stays at its first byte. -/
theorem next_blockMark (cursor : Cursor)
    (marked : Bytes.startsWith Comment.blockMark cursor.rest = true) :
    let text := cursor.rest.drop Comment.blockMark.length
    (∀ length, bodyLength? text = some length ↔ ClosesAt text length) ∧
    (∀ first second, ClosesAt text first → ClosesAt text second → first = second) ∧
    (∀ length, ClosesAt text length →
      cursor.next = .ok (cursor.complete .blockComment (Comment.blockLines (text.take length))
        (text.drop (length + 2)))) ∧
    ((∀ length, ¬ClosesAt text length) →
      cursor.next = .error ⟨cursor.position, .unterminatedBlock⟩ ∧
        cursor.after .next = cursor) ∧
    ∀ search, Relation.ReflTransGen Search.Turn ⟨0, 0, text⟩ search →
      search.result = bodyLength? text ∧
        ∃ read, search.Counts text read ∧
          read.count .opening = search.inner + read.count .closing := by
  intro text
  refine ⟨fun _ => Comment.bodyLength?_eq_some_iff, fun _ _ => ClosesAt.unique, ?_, ?_, ?_⟩
  · intro length closes
    have found := Comment.bodyLength?_of_closesAt closes
    simp only [next_of_blockMark marked, nextBlock, found, text]
  · intro unclosed
    have absent : bodyLength? text = none := by
      rw [Option.eq_none_iff_forall_ne_some]
      intro length found
      exact unclosed length (Comment.closesAt_of_bodyLength? found)
    have failed : cursor.next = .error ⟨cursor.position, .unterminatedBlock⟩ := by
      simp only [next_of_blockMark marked, nextBlock, absent, text]
    exact ⟨failed, by rw [after, failed]⟩
  · intro search run
    obtain ⟨same, read, counts⟩ := Search.counts_run run
    exact ⟨same, read, counts, counts.opened.count_eq⟩

theorem next_blockMark_overlapping :
    let closed : Cursor := ⟨[], Place.start, Text.utf8 "/*!/*/ **/ */x"⟩
    let unclosed : Cursor := ⟨[], Place.start, Text.utf8 "/*!/*/"⟩
    Bytes.startsWith Comment.blockMark closed.rest = true ∧
      ClosesAt (closed.rest.drop Comment.blockMark.length) 8 ∧
      Bytes.startsWith Comment.blockMark unclosed.rest = true ∧
      unclosed.next = .error ⟨⟨[], 0, 1, 1⟩, .unterminatedBlock⟩ := by
  intro closed unclosed
  have closedMark : Bytes.startsWith Comment.blockMark closed.rest = true := by decide +kernel
  have mark : Bytes.startsWith Comment.blockMark unclosed.rest = true := by decide +kernel
  have absent : bodyLength? (unclosed.rest.drop Comment.blockMark.length) = none := by
    decide +kernel
  refine ⟨closedMark, ((next_blockMark closed closedMark).1 8).mp (by decide +kernel), mark, ?_⟩
  obtain ⟨closes, -, -, fails, -⟩ := next_blockMark unclosed mark
  refine (fails fun length stands => ?_).1
  have found := (closes length).mpr stands
  rw [absent] at found
  contradiction

end Cursor

end DocPrologue
