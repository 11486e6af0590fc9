import DocPrologue.Inclusion
import DocPrologue.Proofs.Paths

/-!
What an inclusion depends on: the files of its list, and nothing else. It reads them in order, so
the first file that cannot be read ends it, whatever stands behind that file.
-/

namespace DocPrologue

instance decidableEqExcept {α β : Type} [DecidableEq α] [DecidableEq β] :
    DecidableEq (Except α β)
  | .ok first, .ok second => decidable_of_iff (first = second) (by simp)
  | .error first, .error second => decidable_of_iff (first = second) (by simp)
  | .ok _, .error _ => isFalse (by simp)
  | .error _, .ok _ => isFalse (by simp)

theorem Path.map_resolve_resolve (directory : Bytes) (paths : List Bytes) :
    (paths.map (resolve directory)).map (resolve []) = paths.map (resolve directory) := by
  rw [List.map_map]
  exact List.map_congr_left fun path _ => resolve_resolve directory path

namespace Inclusion

variable {read other : Reader} {before paths after : List Bytes} {path text : Bytes}
  {cause : AccessError}

theorem textOf_congr (same : other path = read path) : textOf other path = textOf read path := by
  rw [textOf, textOf, same]

theorem textOf_refused (refused : other path = .error cause) :
    textOf other path = .error (.unreadable path cause) := by
  rw [textOf, refused]

theorem textsOf_congr (same : ∀ path ∈ paths, other path = read path) :
    textsOf other paths = textsOf read paths := by
  induction paths with
  | nil => rfl
  | cons path paths ih =>
      rw [textsOf, textsOf, textOf_congr (same path (by simp)),
        ih fun later member => same later (by simp [member])]

theorem textsOf_of_first_error {error : InclusionError}
    (earlier : ∀ path ∈ before, ∃ text, textOf read path = .ok text)
    (failed : textOf read path = .error error) :
    textsOf read (before ++ path :: after) = .error error := by
  induction before with
  | nil => rw [List.nil_append, textsOf, failed]
  | cons first before ih =>
      obtain ⟨⟨text, readable⟩, others⟩ := List.forall_mem_cons.mp earlier
      simp only [List.cons_append, textsOf, readable, ih others]

theorem collect_congr (same : ∀ path ∈ paths, other path = read path) :
    collect other paths = collect read paths := by
  rw [collect, collect, textsOf_congr same]

theorem textsOf_cons : textsOf read (path :: paths) =
    (textOf read path).bind fun text => (textsOf read paths).bind fun texts =>
      .ok (text :: texts) := by
  rw [textsOf]
  cases textOf read path with
  | error error => rfl
  | ok text => cases textsOf read paths <;> rfl

theorem collect_of_ne_nil (filled : paths ≠ []) :
    collect read paths = (textsOf read paths).bind fun texts => .ok (joinTexts texts) := by
  rw [collect, if_neg (by simpa using filled)]
  cases textsOf read paths <;> rfl

theorem textOf_eq_ok_iff : textOf read path = .ok text ↔
    ∃ source block, read path = .ok source ∧ Block.extract path source = .ok block ∧
      block.text = text := by
  unfold textOf
  cases read path with
  | error cause => simp
  | ok source =>
      dsimp only
      cases extracted : Block.extract path source <;> simp [extracted]

theorem textsOf_eq_ok_iff {texts : List Bytes} :
    textsOf read paths = .ok texts ↔ paths.map (textOf read) = texts.map .ok := by
  induction paths generalizing texts with
  | nil => cases texts <;> simp [textsOf]
  | cons path paths ih =>
      rw [textsOf_cons, List.map_cons]
      cases textOf read path with
      | error error => cases texts <;> simp [Except.bind]
      | ok text =>
          cases texts with
          | nil => cases textsOf read paths <;> simp [Except.bind]
          | cons first others =>
              rw [List.map_cons, List.cons.injEq, ← ih]
              cases textsOf read paths <;> simp [Except.bind]

theorem collect_eq_ok_iff : collect read paths = .ok text ↔
    paths ≠ [] ∧ ∃ texts, textsOf read paths = .ok texts ∧ joinTexts texts = text := by
  unfold collect
  cases paths with
  | nil => simp
  | cons path paths => cases textsOf read (path :: paths) <;> simp

theorem collect_of_first_error {error : InclusionError}
    (earlier : ∀ path ∈ before, ∃ text, textOf read path = .ok text)
    (failed : textOf read path = .error error) :
    collect read (before ++ path :: after) = .error error := by
  rw [collect_of_ne_nil (by simp), textsOf_of_first_error earlier failed]
  rfl

theorem mem_texts_iff {texts : List Bytes} (success : textsOf read paths = .ok texts) :
    text ∈ texts ↔ ∃ path ∈ paths, textOf read path = .ok text := by
  have member : text ∈ texts ↔
      .ok text ∈ texts.map (.ok : Bytes → Except InclusionError Bytes) := by simp
  rw [member, ← textsOf_eq_ok_iff.mp success]
  simp

theorem textOf_of_textsOf {texts : List Bytes} (success : textsOf read paths = .ok texts)
    (member : path ∈ paths) : ∃ text, textOf read path = .ok text := by
  have result : textOf read path ∈ texts.map .ok := by
    rw [← textsOf_eq_ok_iff.mp success]
    exact List.mem_map_of_mem member
  obtain ⟨text, -, readable⟩ := List.mem_map.mp result
  exact ⟨text, readable.symm⟩

theorem collect_kept (success : collect read paths = .ok text)
    (kept : ∀ path ∈ paths, ∀ source, read path = .ok source → other path = .ok source) :
    collect other paths = .ok text := by
  rw [← success]
  apply collect_congr
  intro path member
  obtain ⟨-, texts, readable, -⟩ := collect_eq_ok_iff.mp success
  obtain ⟨text, included⟩ := textOf_of_textsOf readable member
  obtain ⟨source, block, found, -⟩ := textOf_eq_ok_iff.mp included
  rw [found]
  exact kept path member source found

theorem collect_refused (success : collect read (before ++ path :: after) = .ok text)
    (same : ∀ earlier ∈ before, other earlier = read earlier)
    (refused : other path = .error cause) :
    collect other (before ++ path :: after) = .error (.unreadable path cause) := by
  obtain ⟨-, texts, readable, -⟩ := collect_eq_ok_iff.mp success
  refine collect_of_first_error ?_ (textOf_refused refused)
  intro earlier member
  obtain ⟨text, included⟩ := textOf_of_textsOf readable (List.mem_append_left _ member)
  exact ⟨text, (textOf_congr (same earlier member)).trans included⟩

end Inclusion

end DocPrologue
