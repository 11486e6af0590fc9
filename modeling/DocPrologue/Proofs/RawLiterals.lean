import DocPrologue.Proofs.AttributeGrammar
import DocPrologue.Proofs.RoundTrip
import Mathlib.Logic.ExistsUnique

/-!
Raw literals, and where literals end. A raw literal ends at the first quote that has as many hashes
behind it as stand in front of the literal. Every literal is read up to its own end only, whatever
follows it, and no part of it from its start is a literal.
-/

namespace DocPrologue

namespace Bytes

def returnAndFeed : Bytes := [Byte.cr, Byte.lf]

def FeedsOnly (text value : Bytes) : Prop :=
  ∃ parts, text = join returnAndFeed parts ∧ value = join [Byte.lf] parts ∧
    ∀ part ∈ parts, ¬returnAndFeed <:+: part

theorem join_cons (separator part : Bytes) (parts : List Bytes) :
    join separator (part :: parts) =
      part ++ parts.flatMap fun next => separator ++ next := rfl

theorem returnAndFeed_prefix_cons {byte : UInt8} {text : Bytes} :
    returnAndFeed <+: byte :: text ↔ byte = Byte.cr ∧ text.head? = some Byte.lf := by
  rw [returnAndFeed, List.cons_prefix_cons]
  cases text with
  | nil => simp
  | cons first text => simp [List.cons_prefix_cons, eq_comm]

theorem exists_parts (text : Bytes) :
    ∃ part parts, text = join returnAndFeed (part :: parts) ∧
      ∀ other ∈ part :: parts, ¬returnAndFeed <:+: other := by
  fun_induction dropReturns text with
  | case1 => exact ⟨[], [], rfl, by simp [returnAndFeed]⟩
  | case2 byte text returns ih =>
      obtain ⟨rfl, feed⟩ := returns
      obtain ⟨after, rfl⟩ := List.head?_eq_some_iff.mp feed
      obtain ⟨part, parts, whole, free⟩ := ih
      rw [join_cons] at whole
      -- The line feed is the first byte of the first part.
      cases part with
      | nil =>
          cases parts with
          | nil => contradiction
          | cons next parts => exact absurd (List.cons.inj whole).1 (by decide)
      | cons first part =>
          obtain ⟨rfl, rfl⟩ := List.cons.inj whole
          refine ⟨[], part :: parts, rfl, ?_⟩
          rw [List.forall_mem_cons] at free
          rw [List.forall_mem_cons, List.forall_mem_cons]
          refine ⟨by simp [returnAndFeed], ?_, free.2⟩
          exact fun found => free.1 (found.trans (List.suffix_cons Byte.lf part).isInfix)
  | case3 byte text single ih =>
      obtain ⟨part, parts, whole, free⟩ := ih
      rw [List.forall_mem_cons] at free
      refine ⟨byte :: part, parts, by rw [whole]; rfl, ?_⟩
      rw [List.forall_mem_cons]
      refine ⟨fun found => ?_, free.2⟩
      rcases List.infix_cons_iff.mp found with starts | inside
      · obtain ⟨isReturn, feed⟩ := returnAndFeed_prefix_cons.mp starts
        refine single ⟨isReturn, ?_⟩
        rw [whole, join_cons, List.head?_append, feed]
        rfl
      · exact free.1 inside

theorem dropReturns_append {part rest : Bytes} (free : ¬returnAndFeed <:+: part)
    (noFeed : rest.head? ≠ some Byte.lf) :
    dropReturns (part ++ rest) = part ++ dropReturns rest := by
  induction part with
  | nil => rfl
  | cons byte part ih =>
      have single : ¬(byte = Byte.cr ∧ (part ++ rest).head? = some Byte.lf) := by
        rintro ⟨isReturn, feed⟩
        cases part with
        | nil => exact noFeed feed
        | cons next part =>
            exact free (returnAndFeed_prefix_cons.mpr ⟨isReturn, feed⟩ :
              returnAndFeed <+: byte :: next :: part).isInfix
      rw [List.cons_append, dropReturns, if_neg single,
        ih fun found => free (found.trans (List.suffix_cons byte part).isInfix), List.cons_append]

theorem head?_flatMap_returnAndFeed (parts : List Bytes) :
    (parts.flatMap fun next => returnAndFeed ++ next).head? ≠ some Byte.lf := by
  cases parts with
  | nil => simp
  | cons part parts => simp [returnAndFeed, Byte.cr, Byte.lf]

theorem dropReturns_flatMap {parts : List Bytes}
    (free : ∀ part ∈ parts, ¬returnAndFeed <:+: part) :
    dropReturns (parts.flatMap fun next => returnAndFeed ++ next) =
      parts.flatMap fun next => [Byte.lf] ++ next := by
  induction parts with
  | nil => rfl
  | cons part parts ih =>
      rw [List.forall_mem_cons] at free
      have later := dropReturns_append free.1 (head?_flatMap_returnAndFeed parts)
      rw [ih free.2] at later
      rw [List.flatMap_cons, List.flatMap_cons, List.append_assoc, List.append_assoc, ← later,
        returnAndFeed, List.cons_append, List.singleton_append, dropReturns, if_pos ⟨rfl, rfl⟩,
        dropReturns, if_neg fun both => absurd both.1 (by decide), List.singleton_append]

theorem dropReturns_join {parts : List Bytes} (free : ∀ part ∈ parts, ¬returnAndFeed <:+: part) :
    dropReturns (join returnAndFeed parts) = join [Byte.lf] parts := by
  cases parts with
  | nil => rfl
  | cons part parts =>
      rw [List.forall_mem_cons] at free
      rw [join_cons, join_cons, dropReturns_append free.1 (head?_flatMap_returnAndFeed parts),
        dropReturns_flatMap free.2]

theorem feedsOnly_iff {text value : Bytes} : FeedsOnly text value ↔ value = dropReturns text := by
  constructor
  · rintro ⟨parts, rfl, rfl, free⟩
    exact (dropReturns_join free).symm
  · rintro rfl
    obtain ⟨part, parts, rfl, free⟩ := exists_parts text
    exact ⟨part :: parts, rfl, dropReturns_join free, free⟩

end Bytes

namespace Literal

structure Raw where
  hashes : Nat
  content : Bytes
  unclosed : Unclosed hashes content

def Raw.text (literal : Raw) : Bytes := Written.rawLiteral literal.hashes literal.content

theorem unclosed_of_find {hashes : Nat} {content rest : Bytes}
    (found : Bytes.find? (closing hashes) (content ++ (closing hashes ++ rest)) =
      some content.length) : Unclosed hashes content := by
  rintro before after rfl ⟨more, hashed⟩
  have earlier : (before ++ Byte.quote :: after) ++ (closing hashes ++ rest) =
      before ++ (closing hashes ++ (more ++ (closing hashes ++ rest))) := by
    rw [← hashed]
    simp [closing]
  rw [Bytes.find?, earlier] at found
  have bound := Bytes.findFrom_le found
  rw [List.length_append, List.length_cons] at bound
  omega

namespace Raw

theorem text_injective {first second : Raw} (same : first.text = second.text) :
    first = second := by
  obtain ⟨hashes, content, unclosed⟩ := first
  obtain ⟨others, other, otherUnclosed⟩ := second
  have behind : List.replicate hashes Byte.hash ++ Byte.quote :: (content ++ closing hashes) =
      List.replicate others Byte.hash ++ Byte.quote :: (other ++ closing others) :=
    (List.cons.inj same).2
  have allHash (count : Nat) : ∀ byte ∈ List.replicate count Byte.hash, byte = Byte.hash :=
    fun byte member => (List.mem_replicate.mp member).2
  have marks := congrArg (List.takeWhile (· == Byte.hash)) behind
  rw [takeWhile_hashes (allHash hashes), takeWhile_hashes (allHash others)] at marks
  have count := congrArg List.length marks
  rw [List.length_replicate, List.length_replicate] at count
  subst count
  have inside := (List.cons.inj (List.append_cancel_left behind)).2
  obtain rfl := List.append_cancel_right inside
  rfl

theorem reads (literal : Raw) : Reads read literal.text (Bytes.dropReturns literal.content) :=
  reads_raw literal.unclosed

theorem exists_raw {body value rest : Bytes} (done : read (rawMark :: body) = .ok (value, rest)) :
    ∃ literal : Raw, rawMark :: body = literal.text ++ rest := by
  rw [read, if_pos rfl] at done
  obtain ⟨hashes, content, allHash, rfl, -, found⟩ := raw_split done
  refine ⟨⟨hashes.length, content, unclosed_of_find (found [])⟩, ?_⟩
  rw [text, Written.rawLiteral, ← List.eq_replicate_of_mem allHash]
  simp

end Raw

/-- What reading takes is read alone as well, and nothing shorter is. -/
theorem unquote_take {text value : Bytes} {length : Nat}
    (done : unquote text = .ok (value, length)) :
    0 < length ∧ length ≤ text.length ∧
      (∀ tail, unquote (text.take length ++ tail) = .ok (value, length)) ∧
      ∀ front, front <+: text.take length → front ≠ text.take length →
        ∃ error, unquote front = .error error := by
  obtain ⟨used, rest, rfl, rfl, reads⟩ := exists_of_unquote done
  have whole := read_length (reads rest)
  rw [List.length_append] at whole
  rw [List.take_left]
  refine ⟨by omega, by rw [List.length_append]; omega,
    fun tail => unquote_eq_ok_iff.mpr (reads tail), ?_⟩
  rintro front ⟨more, rfl⟩ proper
  cases unquoted : unquote front with
  | error error => exact ⟨error, rfl⟩
  | ok result =>
      obtain ⟨early, late, rfl, -, earlyReads⟩ := exists_of_unquote unquoted
      have first := earlyReads (late ++ more)
      have second := reads []
      rw [List.append_nil, List.append_assoc, first] at second
      obtain ⟨-, nothing⟩ := Prod.mk.inj (Except.ok.inj second)
      obtain ⟨rfl, rfl⟩ := List.append_eq_nil_iff.mp nothing
      exact absurd (List.append_nil _).symm proper

/-- A raw literal is read as its content, whatever follows it, and whatever is read behind the raw
mark is one raw literal. Literals of both kinds end where reading stops, and nowhere before. -/
theorem unquote_raw :
    (∀ (literal : Raw) (rest : Bytes), ∃ value,
      unquote (literal.text ++ rest) = .ok (value, literal.text.length) ∧
      ∀ other, Bytes.FeedsOnly literal.content other ↔ other = value) ∧
    (∀ body value length, unquote (rawMark :: body) = .ok (value, length) →
      ∃! literal : Raw, (rawMark :: body).take length = literal.text) ∧
    ∀ text value length, unquote text = .ok (value, length) →
      0 < length ∧ length ≤ text.length ∧
        (∀ tail, unquote (text.take length ++ tail) = .ok (value, length)) ∧
        ∀ front, front <+: text.take length → front ≠ text.take length →
          ∃ error, unquote front = .error error := by
  refine ⟨fun literal rest => ?_, fun body value length done => ?_,
    fun text value length => unquote_take⟩
  · exact ⟨_, unquote_eq_ok_iff.mpr (literal.reads rest), fun _ => Bytes.feedsOnly_iff⟩
  · obtain ⟨used, rest, shape, rfl, reads⟩ := exists_of_unquote done
    have read := reads rest
    rw [← shape] at read
    obtain ⟨literal, whole⟩ := Raw.exists_raw read
    have taken : (rawMark :: body).take used.length = literal.text := by
      rw [shape, List.take_left]
      exact List.append_cancel_right (shape.symm.trans whole)
    exact ⟨literal, taken, fun other same => Raw.text_injective (same.symm.trans taken)⟩

def Raw.quoted : Raw where
  hashes := 1
  content := Text.utf8 "a\"b\r\n"
  unclosed := @unclosed_of_find 1 _ [] (by decide +kernel)

theorem unquote_raw_quoted :
    let text : Bytes := Text.utf8 "r#\"a\"b\r\n\"##"
    unquote text = .ok (Text.utf8 "a\"b\n", 10) ∧
      (∃! literal : Raw, text.take 10 = literal.text) ∧
      ∃ error, unquote (Text.utf8 "r#\"a\"b\r\n\"") = .error error := by
  intro text
  obtain ⟨accepts, shape, ends⟩ := unquote_raw
  obtain ⟨value, read, feeds⟩ := accepts .quoted [Byte.hash]
  have same : Text.utf8 "a\"b\n" = value :=
    (feeds _).mp ⟨[Text.utf8 "a\"b", []], by decide +kernel, by decide +kernel, by decide +kernel⟩
  have unquoted : unquote text = .ok (Text.utf8 "a\"b\n", 10) := same ▸ read
  exact ⟨unquoted, shape _ _ _ unquoted,
    (ends _ _ _ unquoted).2.2.2 _ (by decide +kernel) (by decide +kernel)⟩

end Literal

end DocPrologue
