import DocPrologue.Proofs.Dependencies

/-!
Programs that make one target, from files or from what is included from them. Run in any directory,
the first leaves a target with the resolved paths of the files. The second leaves one with their
joined text, or is ended by the first file that has none.
-/

namespace DocPrologue

open Text (utf8)

namespace Interpreter

variable {interpreter : Interpreter} {context : Context} {directory filename source : Bytes}
  {paths : List Bytes} {target : Target}

/-- A course that makes one target with one call, and leaves it as the only one. -/
def Course.MakesOne (interpreter : Interpreter) (call : TargetCall)
    (course : Course (Option Value)) : Prop :=
  ∃ keywords rest, call.SaidBy interpreter keywords ∧
    course = .called .target [] keywords rest ∧
    ∀ target, rest (.target target) = .ended (some (.list [.target target]))

def textValue (text : Bytes) : Value := .item (.text text)

/-- A course that includes some files, and makes its only target of their joined text. -/
def Course.IncludesOne (interpreter : Interpreter) (paths : List Bytes) (call : Bytes → TargetCall)
    (course : Course (Option Value)) : Prop :=
  ∃ rest, course = .called .include (paths.map textValue) [] rest ∧
    ∀ text, (rest (.text text)).MakesOne interpreter (call text)

theorem answer_target {call : TargetCall} {keywords : List (Bytes × Value)}
    (said : call.SaidBy context.interpreter keywords)
    (makes : call.Makes context.directory target) :
    answer context .target [] keywords = (.ok (.target target), []) := by
  rw [answer.eq_def]
  dsimp only
  rw [makeTarget_eq_ok_iff.mpr ⟨rfl, call, said, makes⟩]
  rfl

theorem includedPaths_texts (directory : Bytes) (paths : List Bytes) :
    includedPaths directory (paths.map textValue) [] =
      .ok (paths.map (Path.resolve directory)) := by
  have taken : textArguments .include (paths.map textValue) = .ok paths := by
    rw [textArguments, texts_eq_ok_iff, List.map_map]
    rfl
  rw [includedPaths, taken]
  rfl

theorem answer_include_texts (context : Context) (paths : List Bytes) :
    answer context .include (paths.map textValue) [] =
      (((Inclusion.collect context.read
        (paths.map (Path.resolve context.directory))).mapError .ofInclusion).map .text,
        paths.map (Path.resolve context.directory)) :=
  answer_include_ok (includedPaths_texts _ _)

theorem Course.MakesOne.result {call : TargetCall} {course : Course (Option Value)}
    (makesOne : course.MakesOne context.interpreter call)
    (makes : call.Makes context.directory target) :
    (course.run context).result = .ok (some (.list [.target target])) := by
  obtain ⟨keywords, rest, said, rfl, left⟩ := makesOne
  rw [run, answer_target said makes]
  dsimp only
  rw [left]
  rfl

theorem Course.IncludesOne.result {call : Bytes → TargetCall} {course : Course (Option Value)}
    {text : Bytes} (includesOne : course.IncludesOne context.interpreter paths call)
    (makes : (call text).Makes context.directory target)
    (collected : Inclusion.collect context.read (paths.map (Path.resolve context.directory)) =
      .ok text) :
    (course.run context).result = .ok (some (.list [.target target])) := by
  obtain ⟨rest, rfl, makesOne⟩ := includesOne
  rw [run, answer_include_texts, collected]
  exact (makesOne text).result makes

theorem Course.IncludesOne.result_error {call : Bytes → TargetCall}
    {course : Course (Option Value)} {error : InclusionError}
    (includesOne : course.IncludesOne context.interpreter paths call)
    (collected : Inclusion.collect context.read (paths.map (Path.resolve context.directory)) =
      .error error) :
    (course.run context).result = .error (.raised (.ofInclusion error)) := by
  obtain ⟨rest, rfl, -⟩ := includesOne
  rw [run, answer_include_texts, collected]
  rfl

end Interpreter

namespace Manifest

open Interpreter (TargetCall)

variable {interpreter : Interpreter} {read : Inclusion.Reader} {filename source : Bytes}
  {target : Target} {paths : List Bytes}

theorem load_singleton (found : read filename = .ok source)
    (left : ((interpreter.course filename source).run
      (contextOf interpreter read filename)).result = .ok (some (.list [.target target]))) :
    ∃ inputs, (load interpreter read filename).1 = .ok ⟨[target], inputs⟩ := by
  rcases ran : (interpreter.course filename source).run (contextOf interpreter read filename) with
    ⟨result, printed, visited⟩
  rw [ran] at left
  obtain rfl : result = _ := left
  have done : ofLeft filename (some (.list [.target target])) visited =
      .ok ⟨[target], Bytes.sortUnique (filename :: visited ++ [target].flatMap Target.inputs)⟩ :=
    rfl
  exact ⟨_, congrArg Prod.fst (load_eq_ok_iff.mpr ⟨source, _, visited, found, ran, done⟩)⟩

theorem load_makesOne {call : TargetCall} (found : read filename = .ok source)
    (makesOne : (interpreter.course filename source).MakesOne interpreter call)
    (makes : call.Makes (Path.directory filename) target) :
    ∃ inputs, (load interpreter read filename).1 = .ok ⟨[target], inputs⟩ :=
  load_singleton found (makesOne.result makes)

theorem load_includesOne {call : Bytes → TargetCall} {text : Bytes}
    (found : read filename = .ok source)
    (includesOne : (interpreter.course filename source).IncludesOne interpreter paths call)
    (makes : (call text).Makes (Path.directory filename) target)
    (collected : Inclusion.collect read (paths.map (Path.resolve (Path.directory filename))) =
      .ok text) :
    ∃ inputs, (load interpreter read filename).1 = .ok ⟨[target], inputs⟩ :=
  load_singleton found (includesOne.result makes collected)

theorem load_includesOne_error {call : Bytes → TargetCall} {error : InclusionError}
    (found : read filename = .ok source)
    (includesOne : (interpreter.course filename source).IncludesOne interpreter paths call)
    (collected : Inclusion.collect read (paths.map (Path.resolve (Path.directory filename))) =
      .error error) :
    (load interpreter read filename).1 = .error (.raised (.ofInclusion error)) :=
  load_of_failed found (includesOne.result_error collected)

end Manifest

namespace Script

def targetCall (output name package : Bytes) (source : Argument) : Expr :=
  .call (utf8 "target") [.keyword (utf8 "output") (.text output), source,
    .keyword (utf8 "format") (.text name), .keyword (utf8 "package") (.text package)]

def targetProgram (output name package : Bytes) (source : Argument) : Program :=
  [.assign (utf8 "targets") (.list [targetCall output name package source])]

def listOf (paths : List Bytes) : Expr := .list (paths.map .text)

def filesArgument (paths : List Bytes) : Argument := .keyword (utf8 "files") (listOf paths)

def includeArgument (paths : List Bytes) : Argument :=
  .keyword (utf8 "text") (.call (utf8 "docs.include") [.spread (listOf paths)])

open Interpreter (Course TargetCall textValue)

variable {α β γ : Type} {start : Machine} {paths : List Bytes}
  {output name package parameter filename source : Bytes}

theorem bind_assoc (course : Course α) (first : α → Course β) (second : β → Course γ) :
    (course.bind first).bind second = course.bind fun result => (first result).bind second := by
  induction course with
  | ended result => rfl
  | failed failure => rfl
  | printed message next ih => exact congrArg _ ih
  | called function positional keywords next ih => exact congrArg _ (funext ih)

theorem ended_bind (value : α) (next : α → Course β) :
    (Course.ended value).bind next = next value := rfl

theorem Run.pure_apply (value : α) : (pure value : Run α) start = .ended (value, start) := rfl

theorem Run.bind_apply (first : Run α) (next : α → Run β) :
    (first >>= next) start = (first start).bind fun ended => next ended.1 ended.2 := rfl

theorem Run.items_apply {value : Value} {items : List Value} {refusal : Bytes}
    (found : start.store.items? value = some items) :
    Run.items value refusal start = .ended (items, start) := by
  rw [Run.items, Run.bind_apply]
  change (Course.ended (start, start)).bind _ = _
  rw [ended_bind]
  dsimp only
  rw [found]
  rfl

theorem evaluate_text (text : Bytes) :
    evaluate (.text text) start = .ended (.text text, start) := by
  rw [evaluate]
  rfl

def keywordsOf (output name package parameter : Bytes) (value : Interpreter.Value) :
    List (Bytes × Interpreter.Value) :=
  [(utf8 "output", textValue output), (parameter, value), (utf8 "format", textValue name),
    (utf8 "package", textValue package)]

theorem evaluateArguments_target (expr : Expr) :
    evaluateArguments [.keyword (utf8 "output") (.text output), .keyword parameter expr,
        .keyword (utf8 "format") (.text name), .keyword (utf8 "package") (.text package)] start =
      (evaluate expr start).bind fun ended =>
        .ended (([], [(utf8 "output", .text output), (parameter, ended.1),
          (utf8 "format", .text name), (utf8 "package", .text package)]), ended.2) := by
  simp only [evaluateArguments, Run.bind_apply, Run.pure_apply, evaluate_text, ended_bind,
    bind_assoc]

theorem evaluate_targetCall (expr : Expr) :
    evaluate (targetCall output name package (.keyword parameter expr)) .start =
      (evaluate expr .start).bind fun ended =>
        .called .target [] (keywordsOf output name package parameter (ended.2.store.view ended.1))
          fun made => .ended (Value.ofItem made, ended.2) := by
  have callee : Run.lookup (utf8 "target") .start = .ended (.function .target, .start) := rfl
  rw [targetCall, evaluate, Run.bind_apply, callee, ended_bind, Run.bind_apply,
    evaluateArguments_target, bind_assoc]
  rfl

theorem courseOf_targetProgram (expr : Expr) :
    courseOf (targetProgram output name package (.keyword parameter expr)) =
      (evaluate expr .start).bind fun ended =>
        .called .target [] (keywordsOf output name package parameter (ended.2.store.view ended.1))
          fun made => .ended (some (.list [(Value.ofItem made).item])) := by
  have listed :
      evaluate (.list [targetCall output name package (.keyword parameter expr)]) .start =
        (evaluate expr .start).bind fun ended =>
          .called .target []
            (keywordsOf output name package parameter (ended.2.store.view ended.1))
            fun made => .ended (.list ended.2.store.length,
              { ended.2 with store := ended.2.store ++ [.list [Value.ofItem made] 0] }) := by
    simp only [evaluate, evaluateAll, Run.bind_apply, evaluate_targetCall, bind_assoc]
    rfl
  rw [courseOf, targetProgram, executeAll, executeAll, execute]
  change (((evaluate _ Machine.start).bind _).bind _).bind _ = _
  rw [listed]
  simp only [bind_assoc]
  congr 1
  funext ended
  refine congrArg (Course.called .target [] _) (funext fun made => ?_)
  have shown : Store.view (ended.2.store ++ [.list [Value.ofItem made] 0])
      (.list ended.2.store.length) = .list [(Value.ofItem made).item] := by
    simp [Store.view, Store.items?]
  change Course.ended (Option.map _ (List.lookup (utf8 "targets") ((utf8 "targets", _) :: _))) = _
  rw [List.lookup_cons_self, Option.map_some, shown]

theorem evaluateAll_texts (paths : List Bytes) :
    evaluateAll (paths.map .text) start = .ended (paths.map .text, start) := by
  induction paths with
  | nil =>
      rw [List.map_nil, evaluateAll]
      rfl
  | cons path paths ih =>
      rw [List.map_cons, evaluateAll, Run.bind_apply, evaluate_text, ended_bind, Run.bind_apply]
      dsimp only
      rw [ih]
      rfl

def Machine.withTexts (machine : Machine) (texts : List Bytes) : Machine :=
  { machine with store := machine.store ++ [.list (texts.map .text) 0] }

theorem evaluate_listOf (paths : List Bytes) :
    evaluate (listOf paths) start =
      .ended (.list start.store.length, start.withTexts paths) := by
  rw [listOf, evaluate, Run.bind_apply, evaluateAll_texts]
  rfl

theorem items?_withTexts (paths : List Bytes) :
    (start.withTexts paths).store.items? (.list start.store.length) = some (paths.map .text) := by
  simp [Machine.withTexts, Store.items?]

theorem view_withTexts (paths : List Bytes) :
    (start.withTexts paths).store.view (.list start.store.length) = .list (paths.map .text) := by
  rw [Store.view, items?_withTexts, Option.getD_some, List.map_map]
  rfl

theorem evaluate_include (paths : List Bytes) :
    evaluate (.call (utf8 "docs.include") [.spread (listOf paths)]) .start =
      .called .include (paths.map textValue) []
        fun answer => .ended (Value.ofItem answer, Machine.start.withTexts paths) := by
  have callee : Run.lookup (utf8 "docs.include") .start =
      .ended (.function .include, .start) := rfl
  have spread : evaluateArguments [.spread (listOf paths)] .start =
      .ended ((paths.map .text, []), Machine.start.withTexts paths) := by
    simp only [evaluateArguments, Run.bind_apply, evaluate_listOf, ended_bind,
      Run.items_apply (items?_withTexts paths), Run.pure_apply, List.append_nil]
  have seen : (paths.map .text).map (Machine.start.withTexts paths).store.view =
      paths.map textValue := by
    rw [List.map_map]
    rfl
  rw [evaluate, Run.bind_apply, callee, ended_bind, Run.bind_apply, spread, ended_bind, ← seen]
  rfl

theorem Program.ofText?_eq_some {tokens : List Token} {program : Program}
    (scanned : Token.ofText? source = some tokens)
    (parsed : Source.block 0 (tokens.length + 1) tokens = some (program, [])) :
    ofText? source = some program := by
  simp only [ofText?, scanned, parsed]

theorem course_of_program {program : Program} (isProgram : Program.ofText? source = some program) :
    interpreter.course filename source = courseOf program := by
  simp only [interpreter, isProgram]

theorem makesOne_of_program
    (isProgram : Program.ofText? source =
      some (targetProgram output name package (filesArgument paths))) :
    (interpreter.course filename source).MakesOne interpreter
      ⟨output, paths, none, name, package⟩ := by
  rw [course_of_program isProgram, filesArgument, courseOf_targetProgram, evaluate_listOf,
    ended_bind]
  refine ⟨_, _, ⟨?assigned, ?unpacked, ?fits⟩, rfl, fun target => rfl⟩
  case assigned => exact (some output, some (paths.map .text), none, some name, some package, ())
  case unpacked =>
    rw [view_withTexts]
    rfl
  case fits => exact ⟨rfl, rfl, .nothing, rfl, rfl⟩

theorem includesOne_of_program
    (isProgram : Program.ofText? source =
      some (targetProgram output name package (includeArgument paths))) :
    (interpreter.course filename source).IncludesOne interpreter paths
      fun text => ⟨output, [], some text, name, package⟩ := by
  rw [course_of_program isProgram, includeArgument, courseOf_targetProgram, evaluate_include]
  refine ⟨_, rfl, fun text => ⟨_, _, ⟨?assigned, ?unpacked, ?fits⟩, rfl, fun target => rfl⟩⟩
  case assigned => exact (some output, none, some (textValue text), some name, some package, ())
  case unpacked => rfl
  case fits => exact ⟨rfl, rfl, .text text, rfl, rfl⟩

end Script

end DocPrologue
