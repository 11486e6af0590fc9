import DocPrologue.Proofs.TargetCalls

/-!
Two runs of one course, in one directory and with different files. The first run asks for some
paths, in order. While reading these gives the same, the second run does what the first did; where
the first succeeded and the second cannot read one of them, that path ends the second run.
-/

namespace DocPrologue

def Inclusion.Reader.refusing (read : Reader) (path : Bytes) (cause : AccessError) : Reader :=
  fun asked => if asked = path then .error cause else read asked

theorem Inclusion.Reader.refusing_self (read : Reader) (path : Bytes) (cause : AccessError) :
    read.refusing path cause path = .error cause := if_pos rfl

theorem Inclusion.Reader.refusing_of_ne {read : Reader} {path asked : Bytes} {cause : AccessError}
    (different : asked ≠ path) : read.refusing path cause asked = read asked := if_neg different

theorem exists_of_append_eq {front back before after : List Bytes} {mark : Bytes}
    (split : front ++ back = before ++ mark :: after) :
    (∃ rest, front = before ++ mark :: rest) ∨
      ∃ between, before = front ++ between ∧ back = between ++ mark :: after := by
  rcases List.append_eq_append_iff.mp split with ⟨between, first, second⟩ | ⟨between, first, second⟩
  · exact .inr ⟨between, first, second⟩
  · cases between with
    | nil => exact .inr ⟨[], by simp [first], by simpa using second.symm⟩
    | cons head rest =>
        obtain ⟨rfl, -⟩ := List.cons.inj second
        exact .inl ⟨rest, first⟩

namespace Interpreter

deriving instance DecidableEq for Run

variable {α : Type} {context : Context} {other : Inclusion.Reader} {function : Function}
  {positional : List Value} {keywords : List (Bytes × Value)} {item : Item}
  {before after : List Bytes} {path : Bytes} {cause : AccessError}

section Answers

theorem includeFiles_included {directory : Bytes} {paths : List Bytes} (read : Inclusion.Reader)
    (included : includedPaths directory positional keywords = .ok paths) :
    includeFiles read paths = (Inclusion.collect read paths).mapError .ofInclusion := by
  simp only [includedPaths, Except.bind_eq_ok_iff] at included
  obtain ⟨-, -, given, -, ⟨⟩⟩ := included
  rw [includeFiles, Path.map_resolve_resolve]

theorem answer_include_ok {paths : List Bytes}
    (included : includedPaths context.directory positional keywords = .ok paths) :
    answer context .include positional keywords =
      (((Inclusion.collect context.read paths).mapError .ofInclusion).map .text, paths) := by
  rw [answer.eq_def]
  dsimp only
  rw [included]
  dsimp only
  rw [includeFiles_included _ included]

theorem answer_include_error {failure : Failure}
    (refused : includedPaths context.directory positional keywords = .error failure) :
    answer context .include positional keywords = (.error failure, []) := by
  rw [answer.eq_def]
  dsimp only
  rw [refused]

theorem answer_congr
    (same : ∀ path ∈ (answer context function positional keywords).2,
      other path = context.read path) :
    answer (context.reading other) function positional keywords =
      answer context function positional keywords := by
  cases function with
  | «include» =>
      cases included : includedPaths context.directory positional keywords with
      | error failure =>
          have again : includedPaths (context.reading other).directory positional keywords = _ :=
            included
          rw [answer_include_error included, answer_include_error again]
      | ok paths =>
          have again : includedPaths (context.reading other).directory positional keywords = _ :=
            included
          rw [answer_include_ok included] at same ⊢
          rw [answer_include_ok again, ← Inclusion.collect_congr same]
          rfl
  | _ => rfl

theorem answer_refused
    (answered : (answer context function positional keywords).1 = .ok item)
    (split : (answer context function positional keywords).2 = before ++ path :: after)
    (same : ∀ earlier ∈ before, other earlier = context.read earlier)
    (refused : other path = .error cause) :
    (answer (context.reading other) function positional keywords).1 =
      .error (.unreadable path cause) := by
  cases function with
  | «include» =>
      cases included : includedPaths context.directory positional keywords with
      | error failure =>
          rw [answer_include_error included] at answered
          cases answered
      | ok paths =>
          have again : includedPaths (context.reading other).directory positional keywords = _ :=
            included
          rw [answer_include_ok included] at answered split
          obtain rfl : paths = _ := split
          obtain ⟨text, collected, -⟩ := Except.map_eq_ok_iff.mp answered
          cases success : Inclusion.collect context.read (before ++ path :: after) with
          | error error =>
              rw [success] at collected
              cases collected
          | ok joined =>
              rw [answer_include_ok again]
              dsimp only [Context.reading]
              rw [Inclusion.collect_refused success same refused]
              rfl
  | _ => simp [answer] at split

end Answers

namespace Course

variable {course : Course α} {result : α}

/-- A course comes to the same with files that agree on all that it asked for. -/
theorem run_congr (same : ∀ path ∈ (course.run context).visited, other path = context.read path) :
    course.run (context.reading other) = course.run context := by
  induction course with
  | ended result => rfl
  | failed failure => rfl
  | printed message next ih =>
      rw [run, run, ih same]
  | called function positional keywords next ih =>
      unfold run at same ⊢
      rcases answered : answer context function positional keywords with ⟨failure | item, asked⟩
      · rw [answered] at same
        rw [answer_congr (by rw [answered]; exact same), answered]
      · rw [answered] at same
        dsimp only at same
        rw [answer_congr (by rw [answered]; exact fun path member => same path (by simp [member])),
          answered]
        dsimp only
        rw [ih item fun path member => same path (by simp [member])]

theorem run_refused (success : (course.run context).result = .ok result)
    (split : (course.run context).visited = before ++ path :: after)
    (same : ∀ earlier ∈ before, other earlier = context.read earlier)
    (refused : other path = .error cause) :
    (course.run (context.reading other)).result = .error (.raised (.unreadable path cause)) := by
  induction course generalizing before with
  | ended result => simp [run] at split
  | failed failure => simp [run] at split
  | printed message next ih => exact ih success split same
  | called function positional keywords next ih =>
      unfold run at success split ⊢
      rcases answered : answer context function positional keywords with ⟨failure | item, asked⟩
      · rw [answered] at success
        cases success
      · rw [answered] at success split
        dsimp only at success split
        rcases exists_of_append_eq split with ⟨rest, inFront⟩ | ⟨between, rfl, behind⟩
        · have stopped := @answer_refused context other function positional keywords item before
            rest path cause (by rw [answered]) (by rw [answered]; exact inFront) same refused
          rcases again : answer (context.reading other) function positional keywords with
            ⟨outcome, asked⟩
          rw [again] at stopped
          obtain rfl : outcome = _ := stopped
          rfl
        · rw [answer_congr (by
            rw [answered]
            exact fun path member => same path (by simp [member])), answered]
          exact ih item success behind fun path member => same path (by simp [member])

/-- A course opens a path if it cannot go on without it. -/
def Opens (context : Context) (course : Course α) (path : Bytes) : Prop :=
  ∀ cause, (course.run (context.reading (context.read.refusing path cause))).result =
    .error (.raised (.unreadable path cause))

/-- The paths that a successful course asks for are those that it opens. -/
theorem opens_iff (success : (course.run context).result = .ok result) (path : Bytes) :
    course.Opens context path ↔ path ∈ (course.run context).visited := by
  constructor
  · intro opens
    apply Classical.byContradiction
    intro absent
    let cause : AccessError := ⟨.openFile, path, .notFound⟩
    have unread : course.run (context.reading (context.read.refusing path cause)) =
        course.run context :=
      run_congr fun asked member => Inclusion.Reader.refusing_of_ne fun same =>
        absent (same ▸ member)
    have stopped := opens cause
    rw [unread, success] at stopped
    contradiction
  · intro member cause
    obtain ⟨before, after, split, first⟩ := List.eq_append_cons_of_mem member
    refine run_refused success split ?_ (Inclusion.Reader.refusing_self ..)
    intro earlier inFront
    exact Inclusion.Reader.refusing_of_ne fun same => first (same ▸ inFront)

/-- What a run of a course ends with is good, if all answers to its calls are possible. -/
theorem Ends.good {possible : Item → Prop} {good : α → Prop} (ends : course.Ends possible good)
    (answers : ∀ function positional keywords item,
      (answer context function positional keywords).1 = .ok item → possible item)
    (done : (course.run context).result = .ok result) : good result := by
  induction course with
  | ended result =>
      cases done
      exact ends
  | failed failure => cases done
  | printed message next ih => exact ih ends done
  | called function positional keywords next ih =>
      unfold run at done
      rcases answered : answer context function positional keywords with ⟨failure | item, asked⟩
      · rw [answered] at done
        cases done
      · rw [answered] at done
        exact ih item (ends item (answers _ _ _ _ (congrArg Prod.fst answered))) done

theorem Ends.wellMade {course : Course (Option Value)} {left : Option Value}
    (ends : course.Ends (Item.Has (Target.WellMade context.directory)) fun left =>
      ∀ value, left = some value → value.Has (Target.WellMade context.directory))
    (done : (course.run context).result = .ok left) :
    ∀ value, left = some value → value.Has (Target.WellMade context.directory) :=
  ends.good (fun _ _ _ _ => answer_wellMade) done

end Course

end Interpreter

end DocPrologue
