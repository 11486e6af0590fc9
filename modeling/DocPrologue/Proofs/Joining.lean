import DocPrologue.Proofs.Inclusions
import DocPrologue.Proofs.Lookahead
import DocPrologue.Proofs.Progress
import Mathlib.Data.List.Forall2
import Mathlib.Data.List.Induction

/-!
Inclusion as a homomorphism. Joining texts is associative and passes over empty ones, so lists of
files that can be included come to the same one behind the other as their texts joined. Where some
file cannot be included, the first of them in order ends the inclusion, and no file behind it is
read.
-/

namespace DocPrologue

theorem Bytes.join_eq_intercalate (separator : Bytes) (parts : List Bytes) :
    join separator parts = separator.intercalate parts := by
  induction parts with
  | nil => rfl
  | cons first parts ih =>
      cases parts with
      | nil => simp [join]
      | cons next later =>
          rw [List.intercalate_cons_cons, ← ih]
          simp [join]

theorem Block.file_of_extract {name source : Bytes} {error : Malformed}
    (failed : extract name source = .error error) : error.position.file = name := by
  obtain ⟨turns, last, run, ended⟩ := (Scan.start name source).exists_last
  obtain ⟨passed, starts⟩ := Cursor.ofSource_stands name source
  obtain ⟨more, stands⟩ := run.stands starts
  rw [Scan.extract_eq, run.result, Scan.result_eq] at failed
  cases ends : last.turn with
  | goOn next => exact absurd ends (ended next)
  | endOfInput | inFront | behind _ _ =>
      rw [ends] at failed
      contradiction
  | fail fault =>
      rw [ends] at failed
      cases failed
      obtain ⟨spot, -, position⟩ := Cursor.next_fault (Scan.fail_cases ends)
      rw [position]
      exact stands.name

namespace Inclusion

section Texts

variable (first second third : Bytes) (texts : List Bytes)

theorem joinTexts_eq_intercalate : joinTexts texts =
    [Byte.lf, Byte.lf].intercalate (texts.filter fun text => text ≠ []) := by
  rw [joinTexts, Bytes.join_eq_intercalate]
  congr 2
  funext text
  cases text <;> rfl

theorem joinTexts_pair : joinTexts [first, second] =
    if first = [] then second else if second = [] then first
    else first ++ Byte.lf :: Byte.lf :: second := by
  by_cases empty : first = []
  · by_cases alsoEmpty : second = [] <;> simp [joinTexts, empty, alsoEmpty, Bytes.join]
  · by_cases alsoEmpty : second = [] <;> simp [joinTexts, empty, alsoEmpty, Bytes.join]

theorem joinTexts_nil_left : joinTexts [[], second] = second := by
  rw [joinTexts_pair, if_pos rfl]

theorem joinTexts_cons : joinTexts (first :: texts) = joinTexts [first, joinTexts texts] := by
  by_cases empty : first = []
  · rw [empty, joinTexts_nil_left]
    rfl
  · cases kept : texts.filter (fun text => !text.isEmpty) with
    | nil => simp [joinTexts, empty, kept, Bytes.join]
    | cons next later =>
        have filled : next ≠ [] := by
          have member : next ∈ texts.filter (fun text => !text.isEmpty) := by simp [kept]
          simpa using (List.mem_filter.mp member).2
        simp [joinTexts, empty, kept, filled, Bytes.join]

theorem joinTexts_assoc :
    joinTexts [joinTexts [first, second], third] =
      joinTexts [first, joinTexts [second, third]] := by
  by_cases noFirst : first = []
  · rw [noFirst, joinTexts_nil_left, joinTexts_nil_left]
  · by_cases noSecond : second = []
    · simp [joinTexts_pair, noFirst, noSecond]
    · by_cases noThird : third = [] <;> simp [joinTexts_pair, noFirst, noSecond, noThird]

theorem joinTexts_append (others : List Bytes) :
    joinTexts (texts ++ others) = joinTexts [joinTexts texts, joinTexts others] := by
  induction texts with
  | nil => exact (joinTexts_nil_left _).symm
  | cons first texts ih =>
      calc
        joinTexts (first :: texts ++ others) = joinTexts [first, joinTexts (texts ++ others)] :=
          joinTexts_cons first (texts ++ others)
        _ = joinTexts [joinTexts [first, joinTexts texts], joinTexts others] := by
          rw [ih, joinTexts_assoc]
        _ = joinTexts [joinTexts (first :: texts), joinTexts others] := by
          rw [← joinTexts_cons first texts]

theorem joinTexts_eq_foldl :
    joinTexts texts = texts.foldl (fun joined text => joinTexts [joined, text]) [] := by
  induction texts using List.reverseRecOn with
  | nil => rfl
  | append_singleton texts text ih =>
      have alone : joinTexts [text] = text := by
        rw [joinTexts_cons, joinTexts_pair]
        by_cases empty : text = [] <;> simp [empty, joinTexts, Bytes.join]
      rw [joinTexts_append, alone, List.foldl_append, ← ih]
      rfl

end Texts

variable {read : Reader} {before paths after : List Bytes} {path text : Bytes}
  {texts : List Bytes} {error : InclusionError}

def Gives (read : Reader) (path text : Bytes) : Prop :=
  ∃ source block, read path = .ok source ∧ Block.extract path source = .ok block ∧
    block.text = text

inductive Fails (read : Reader) (path : Bytes) : InclusionError → Prop
  | unreadable {cause : AccessError} : read path = .error cause →
      Fails read path (.unreadable path cause)
  | malformed {source : Bytes} {fault : Malformed} : read path = .ok source →
      Block.extract path source = .error fault → fault.position.file = path →
      Fails read path (.malformed fault)

theorem textOf_const (read : Reader) (path : Bytes) :
    textOf (fun _ => read path) path = textOf read path := rfl

theorem textOf_eq_error_iff : textOf read path = .error error ↔ Fails read path error := by
  constructor
  · intro failed
    unfold textOf at failed
    cases found : read path with
    | error cause =>
        rw [found] at failed
        cases failed
        exact .unreadable found
    | ok source =>
        simp only [found] at failed
        cases extracted : Block.extract path source with
        | error fault =>
            simp only [extracted] at failed
            cases failed
            exact .malformed found extracted (Block.file_of_extract extracted)
        | ok block => simp [extracted] at failed
  · rintro (found | ⟨found, extracted, -⟩)
    · rw [textOf, found]
    · simp only [textOf, found, extracted]

theorem gives_or_fails (read : Reader) (path : Bytes) :
    (∃ text, Gives read path text) ∨ ∃ error, Fails read path error := by
  cases outcome : textOf read path with
  | ok text => exact .inl ⟨text, textOf_eq_ok_iff.mp outcome⟩
  | error error => exact .inr ⟨error, textOf_eq_error_iff.mp outcome⟩

theorem Fails.not_gives (fails : Fails read path error) : ¬∃ text, Gives read path text := by
  rintro ⟨text, gives⟩
  have given := textOf_eq_ok_iff.mpr gives
  rw [textOf_eq_error_iff.mpr fails] at given
  contradiction

theorem Gives.congr {other : Reader} (gives : Gives read path text)
    (same : other path = read path) : Gives other path text :=
  textOf_eq_ok_iff.mp ((textOf_congr same).trans (textOf_eq_ok_iff.mpr gives))

theorem Fails.congr {other : Reader} (fails : Fails read path error)
    (same : other path = read path) : Fails other path error :=
  textOf_eq_error_iff.mp ((textOf_congr same).trans (textOf_eq_error_iff.mpr fails))

/-- All files of a list can be included, or there is a first one that cannot. -/
theorem all_give_or_first_fails (read : Reader) (paths : List Bytes) :
    (∀ path ∈ paths, ∃ text, Gives read path text) ∨
      ∃ before path after error, paths = before ++ path :: after ∧
        (∀ earlier ∈ before, ∃ text, Gives read earlier text) ∧ Fails read path error := by
  induction paths with
  | nil => exact .inl (by simp)
  | cons path paths ih =>
      rcases gives_or_fails read path with gives | ⟨error, fails⟩
      · rcases ih with others | ⟨before, bad, after, error, rfl, earlier, fails⟩
        · exact .inl (List.forall_mem_cons.mpr ⟨gives, others⟩)
        · exact .inr ⟨path :: before, bad, after, error, rfl,
            List.forall_mem_cons.mpr ⟨gives, earlier⟩, fails⟩
      · exact .inr ⟨[], path, paths, error, rfl, by simp, fails⟩

theorem exists_texts (give : ∀ path ∈ paths, ∃ text, Gives read path text) :
    ∃ texts, List.Forall₂ (Gives read) paths texts := by
  induction paths with
  | nil => exact ⟨[], .nil⟩
  | cons path paths ih =>
      obtain ⟨⟨text, gives⟩, others⟩ := List.forall_mem_cons.mp give
      obtain ⟨texts, given⟩ := ih others
      exact ⟨text :: texts, .cons gives given⟩

theorem textsOf_of_give (given : List.Forall₂ (Gives read) paths texts) :
    textsOf read paths = .ok texts := by
  induction given with
  | nil => rfl
  | cons gives _ ih => simp only [textsOf, textOf_eq_ok_iff.mpr gives, ih]

section Noting

variable {m : Type → Type} [Monad m]

def textsOfM (read : Bytes → m (Except AccessError Bytes)) :
    List Bytes → m (Except InclusionError (List Bytes))
  | [] => pure (.ok [])
  | path :: paths => do
    let found ← read path
    match textOf (fun _ => found) path with
    | .error error => pure (.error error)
    | .ok text =>
      let texts ← textsOfM read paths
      pure (texts.map (text :: ·))

def collectM (read : Bytes → m (Except AccessError Bytes)) (paths : List Bytes) :
    m (Except InclusionError Bytes) :=
  if paths.isEmpty then pure (.error .noFiles) else Except.map joinTexts <$> textsOfM read paths

theorem textsOfM_pure [LawfulMonad m] (read : Reader) (paths : List Bytes) :
    textsOfM (fun path => (pure (read path) : m _)) paths = pure (textsOf read paths) := by
  induction paths with
  | nil => rfl
  | cons path paths ih =>
      rw [textsOfM, pure_bind, ih, textsOf, textOf_const]
      cases textOf read path with
      | error error => rfl
      | ok text =>
          simp only [pure_bind]
          cases textsOf read paths <;> rfl

/-- With a reader that only answers it is the same loop. -/
theorem collectM_pure [LawfulMonad m] (read : Reader) (paths : List Bytes) :
    collectM (fun path => (pure (read path) : m _)) paths = pure (collect read paths) := by
  unfold collectM collect
  split
  · rfl
  · rw [textsOfM_pure, map_pure]
    cases textsOf read paths <;> rfl

def noting (read : Reader) (path : Bytes) : StateM (List Bytes) (Except AccessError Bytes) := do
  modify (· ++ [path])
  return read path

theorem noting_of_gives (gives : Gives read path text) (paths noted : List Bytes) :
    (textsOfM (noting read) (path :: paths)).run noted =
      let (outcome, asked) := (textsOfM (noting read) paths).run (noted ++ [path])
      (outcome.map (text :: ·), asked) := by
  have outcome := textOf_eq_ok_iff.mpr gives
  simp only [textsOfM, noting, StateT.run_bind, StateT.run_modify, StateT.run_pure, pure_bind,
    bind_assoc, textOf_const, outcome]
  rfl

theorem noting_of_fails (fails : Fails read path error) (paths noted : List Bytes) :
    (textsOfM (noting read) (path :: paths)).run noted = (.error error, noted ++ [path]) := by
  have outcome := textOf_eq_error_iff.mpr fails
  simp only [textsOfM, noting, StateT.run_bind, StateT.run_modify, StateT.run_pure, pure_bind,
    bind_assoc, textOf_const, outcome]
  rfl

theorem noting_of_first_fails (earlier : ∀ path ∈ before, ∃ text, Gives read path text)
    (fails : Fails read path error) (noted : List Bytes) :
    (textsOfM (noting read) (before ++ path :: after)).run noted =
      (.error error, noted ++ (before ++ [path])) := by
  induction before generalizing noted with
  | nil => exact noting_of_fails fails after noted
  | cons first before ih =>
      obtain ⟨⟨text, gives⟩, others⟩ := List.forall_mem_cons.mp earlier
      rw [List.cons_append, noting_of_gives gives, ih others, List.append_assoc]
      rfl

end Noting

/-- A way to include files that is a homomorphism: `read` is what it reads from, `name` what a path
of the list stands for there. -/
structure Joins {σ : Type} (read : σ → Reader) (name : Bytes → Bytes)
    (gather : σ → List Bytes → Except InclusionError Bytes) : Prop where
  succeeds (state : σ) {paths : List Bytes} : paths ≠ [] →
    ((∃ text, gather state paths = .ok text) ↔
      ∀ path ∈ paths, ∃ text, Gives (read state) (name path) text)
  joined (state : σ) {paths texts : List Bytes} : paths ≠ [] →
    List.Forall₂ (Gives (read state)) (paths.map name) texts →
    gather state paths = .ok ([Byte.lf, Byte.lf].intercalate (texts.filter fun text => text ≠ []))
  failed (state : σ) {paths : List Bytes} : paths ≠ [] →
    (¬∃ text, gather state paths = .ok text) →
    ∃ before path after error, paths = before ++ path :: after ∧
      (∀ earlier ∈ before, ∃ text, Gives (read state) (name earlier) text) ∧
      Fails (read state) (name path) error ∧ gather state paths = .error error ∧
      (collectM (noting (read state)) (paths.map name)).run [] =
        (.error error, (before ++ [path]).map name) ∧
      ∀ (other : σ) (rest : List Bytes),
        (∀ asked ∈ before ++ [path], read other (name asked) = read state (name asked)) →
        gather other (before ++ path :: rest) = .error error
  append (state : σ) {first second : List Bytes} {text more : Bytes} : first ≠ [] → second ≠ [] →
    gather state first = .ok text → gather state second = .ok more →
    gather state (first ++ second) = .ok (joinTexts [text, more])
  skips (state : σ) {before after : List Bytes} {path : Bytes} : before ++ after ≠ [] →
    Gives (read state) (name path) [] →
    gather state (before ++ path :: after) = gather state (before ++ after)

theorem collect_of_give (filled : paths ≠ []) (given : List.Forall₂ (Gives read) paths texts) :
    collect read paths = .ok (joinTexts texts) := by
  rw [collect_of_ne_nil filled, textsOf_of_give given]
  rfl

theorem collect_of_first_fails (earlier : ∀ path ∈ before, ∃ text, Gives read path text)
    (fails : Fails read path error) : collect read (before ++ path :: after) = .error error := by
  refine collect_of_first_error ?_ (textOf_eq_error_iff.mpr fails)
  intro path member
  exact (earlier path member).imp fun _ => textOf_eq_ok_iff.mpr

theorem exists_fails_of_collect (filled : paths ≠ []) (failed : collect read paths = .error error) :
    ∃ path ∈ paths, Fails read path error := by
  rcases all_give_or_first_fails read paths with
    give | ⟨before, path, after, first, rfl, earlier, fails⟩
  · obtain ⟨texts, given⟩ := exists_texts give
    rw [collect_of_give filled given] at failed
    contradiction
  · rw [collect_of_first_fails earlier fails] at failed
    cases failed
    exact ⟨path, by simp, fails⟩

theorem collect_ne_noFiles (filled : paths ≠ []) : collect read paths ≠ .error .noFiles := by
  intro failed
  obtain ⟨path, -, ⟨⟩⟩ := exists_fails_of_collect filled failed

theorem collect_asks (earlier : ∀ path ∈ before, ∃ text, Gives read path text)
    (fails : Fails read path error) :
    (collectM (noting read) (before ++ path :: after)).run [] =
      (.error error, before ++ [path]) := by
  rw [collectM, if_neg (by simp), StateT.run_map, noting_of_first_fails earlier fails]
  rfl

theorem textsOf_append (first second : List Bytes) :
    textsOf read (first ++ second) = (textsOf read first).bind fun texts =>
      (textsOf read second).bind fun more => .ok (texts ++ more) := by
  induction first with
  | nil => cases outcome : textsOf read second <;> simp [textsOf, outcome, Except.bind]
  | cons path first ih =>
      rw [List.cons_append, textsOf_cons, textsOf_cons, ih]
      cases textOf read path with
      | error error => rfl
      | ok text =>
          cases textsOf read first with
          | error error => rfl
          | ok texts => cases textsOf read second <;> rfl

theorem collect_append {first second : List Bytes} {more : Bytes}
    (given : collect read first = .ok text) (alsoGiven : collect read second = .ok more) :
    collect read (first ++ second) = .ok (joinTexts [text, more]) := by
  obtain ⟨filled, texts, readable, rfl⟩ := collect_eq_ok_iff.mp given
  obtain ⟨-, others, alsoReadable, rfl⟩ := collect_eq_ok_iff.mp alsoGiven
  refine collect_eq_ok_iff.mpr ⟨by simp [filled], texts ++ others, ?_, joinTexts_append _ _⟩
  rw [textsOf_append, readable, alsoReadable]
  rfl

theorem collect_skips (filled : before ++ after ≠ []) (gives : Gives read path []) :
    collect read (before ++ path :: after) = collect read (before ++ after) := by
  have skips (texts others : List Bytes) :
      joinTexts (texts ++ [] :: others) = joinTexts (texts ++ others) := by
    simp [joinTexts]
  rw [collect_of_ne_nil (by simp), collect_of_ne_nil filled, textsOf_append, textsOf_append,
    textsOf_cons, textOf_eq_ok_iff.mpr gives]
  cases textsOf read before with
  | error error => rfl
  | ok texts =>
      cases textsOf read after with
      | error error => rfl
      | ok others => exact congrArg Except.ok (skips texts others)

theorem collect_succeeds (filled : paths ≠ []) :
    (∃ text, collect read paths = .ok text) ↔ ∀ path ∈ paths, ∃ text, Gives read path text := by
  rcases all_give_or_first_fails read paths with
    give | ⟨before, path, after, error, rfl, earlier, fails⟩
  · obtain ⟨texts, given⟩ := exists_texts give
    exact ⟨fun _ => give, fun _ => ⟨_, collect_of_give filled given⟩⟩
  · constructor
    · rintro ⟨text, done⟩
      rw [collect_of_first_fails earlier fails] at done
      contradiction
    · intro give
      exact absurd (give path (by simp)) fails.not_gives

theorem joins_of_collect {σ : Type} {reader : σ → Reader} {name : Bytes → Bytes}
    {gather : σ → List Bytes → Except InclusionError Bytes}
    (collects : ∀ state paths, gather state paths = collect (reader state) (paths.map name)) :
    Joins reader name gather where
  succeeds state paths filled := by
    rw [collects, collect_succeeds (by simpa using filled)]
    simp
  joined state paths texts filled given := by
    rw [collects, collect_of_give (by simpa using filled) given, joinTexts_eq_intercalate]
  failed state paths filled refused := by
    rw [collects, collect_succeeds (by simpa using filled)] at refused
    obtain ⟨_, _, _, error, shape, earlier, fails⟩ :=
      (all_give_or_first_fails (reader state) (paths.map name)).resolve_left refused
    obtain ⟨before, rest, rfl, rfl, behind⟩ := List.map_eq_append_iff.mp shape
    obtain ⟨path, after, rfl, rfl, rfl⟩ := List.map_eq_cons_iff.mp behind
    have named (rest : List Bytes) : (before ++ path :: rest).map name =
        before.map name ++ name path :: rest.map name := by
      rw [List.map_append, List.map_cons]
    have gives (asked : Bytes) (member : asked ∈ before) :
        ∃ text, Gives (reader state) (name asked) text := earlier _ (List.mem_map_of_mem member)
    refine ⟨before, path, after, error, rfl, gives, fails, ?_, ?_, ?_⟩
    · rw [collects, named, collect_of_first_fails earlier fails]
    · rw [named, collect_asks earlier fails, List.map_append]
      rfl
    · intro other rest same
      rw [collects, named]
      refine collect_of_first_fails ?_ (fails.congr (same path (by simp)))
      intro _ member
      obtain ⟨asked, isAsked, rfl⟩ := List.mem_map.mp member
      obtain ⟨text, given⟩ := gives asked isAsked
      exact ⟨text, given.congr (same asked (List.mem_append_left _ isAsked))⟩
  append state first second text more _ _ given alsoGiven := by
    rw [collects] at given alsoGiven ⊢
    rw [List.map_append]
    exact collect_append given alsoGiven
  skips state before after path filled gives := by
    rw [collects, collects, List.map_append, List.map_append, List.map_cons]
    exact collect_skips (by simpa using filled) gives

/-- Including is a homomorphism, from a reader, from a tree of files and from files in memory. -/
theorem collect_joins :
    (∀ texts others, joinTexts (texts ++ others) = joinTexts [joinTexts texts, joinTexts others]) ∧
    Joins (fun read : Reader => read) id collect ∧
    (∀ directory, Joins FileTree.read (Path.resolve directory) (·.collect directory)) ∧
    Joins Bundle.read Path.clean Bundle.collect := by
  refine ⟨joinTexts_append, joins_of_collect ?_, fun directory => ?_, ?_⟩
  · intro read paths
    rw [List.map_id]
  · exact joins_of_collect fun _ _ => rfl
  · exact joins_of_collect fun _ _ => rfl

theorem collect_joins_bundle :
    let bundle : Bundle := [(Text.utf8 "a", Text.utf8 "//! one\n"),
      (Text.utf8 "b", Text.utf8 "mod b;\n"), (Text.utf8 "c", Text.utf8 "/*! two */\n")]
    Gives bundle.read (Path.clean (Text.utf8 "b")) [] ∧
      bundle.collect [Text.utf8 "a"] = .ok (Text.utf8 "one") ∧
      bundle.collect [Text.utf8 "c"] = .ok (Text.utf8 "two") ∧
      bundle.collect [Text.utf8 "a", Text.utf8 "c"] = .ok (Text.utf8 "one\n\ntwo") ∧
      bundle.collect [Text.utf8 "a", Text.utf8 "b", Text.utf8 "c"] =
        .ok (Text.utf8 "one\n\ntwo") := by
  intro bundle
  have joins := collect_joins.2.2.2
  have first : bundle.collect [Text.utf8 "a"] = .ok (Text.utf8 "one") := by decide +kernel
  have second : bundle.collect [Text.utf8 "c"] = .ok (Text.utf8 "two") := by decide +kernel
  have gives : Gives bundle.read (Path.clean (Text.utf8 "b")) [] :=
    ⟨Text.utf8 "mod b;\n", [], by decide +kernel, by decide +kernel, rfl⟩
  have both : bundle.collect ([Text.utf8 "a"] ++ [Text.utf8 "c"]) =
      .ok (joinTexts [Text.utf8 "one", Text.utf8 "two"]) :=
    joins.append bundle (by simp) (by simp) first second
  have skips : bundle.collect ([Text.utf8 "a"] ++ Text.utf8 "b" :: [Text.utf8 "c"]) =
      bundle.collect ([Text.utf8 "a"] ++ [Text.utf8 "c"]) := joins.skips bundle (by simp) gives
  exact ⟨gives, first, second, both, skips.trans both⟩

end Inclusion

end DocPrologue
