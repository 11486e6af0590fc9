import Mathlib.Data.List.Nodup
import DocPrologue.Script.Interpreter
import DocPrologue.Tool.Session

/-!
Where settings come from. A setting is given by its flag or by its variable in the environment, and
for a run it makes no difference by which. The flag comes first: where it is given, nothing that the
environment says of the setting counts.
-/

namespace DocPrologue

open Text (utf8)

section Lookups

variable {β : Type} {entries : List (Bytes × β)} {key : Bytes}

theorem lookup_of_mem {value : β} (once : (entries.map Prod.fst).Nodup)
    (member : (key, value) ∈ entries) : entries.lookup key = some value := by
  obtain ⟨before, after, rfl⟩ := List.append_of_mem member
  refine List.lookup_eq_some_iff.mpr ⟨before, after, rfl, ?_⟩
  intro earlier inFront
  rw [List.map_append, List.nodup_append] at once
  simpa using (once.2.2 earlier.1 (List.mem_map_of_mem inFront) key (by simp)).symm

theorem lookup_of_notMem (absent : key ∉ entries.map Prod.fst) : entries.lookup key = none := by
  refine List.lookup_eq_none_iff.mpr ?_
  intro entry member
  simpa using fun same : key = entry.1 => absent (same ▸ List.mem_map_of_mem member)

end Lookups

namespace Flag

def assignment (name value : Bytes) : Bytes := Byte.dash :: name ++ Byte.equals :: value

def assigned (given : List (Bytes × Bytes)) : Values :=
  (given.map fun entry => (entry.1, Value.text entry.2)).reverse

structure TakesText (flags : List Flag) (name : Bytes) : Prop where
  filled : name ≠ []
  undashed : name.head? ≠ some Byte.dash
  plain : Byte.equals ∉ name
  known : ∃ flag, flags.find? (·.name == name) = some flag ∧ flag.kind = .text

variable {flags : List Flag} {name : Bytes}

theorem TakesText.shapeOf (takes : TakesText flags name) (value : Bytes) :
    shapeOf (assignment name value) = .flag name (some value) := by
  obtain ⟨first, rest, rfl⟩ := List.exists_cons_of_ne_nil takes.filled
  have noDash : first ≠ Byte.dash := by simpa using takes.undashed
  have plain : first ≠ Byte.equals ∧ Byte.equals ∉ rest := by
    simpa [eq_comm] using takes.plain
  have inside : ∀ byte ∈ rest, (byte != Byte.equals) = true := by
    intro byte member
    simpa using fun same : byte = Byte.equals => plain.2 (same ▸ member)
  have onward : Flag.shapeOf (assignment (first :: rest) value) =
      nameAndValue (first :: (rest ++ Byte.equals :: value)) := if_neg noDash
  rw [onward, nameAndValue, if_neg (by simp [noDash, plain.1]), List.dropWhile_append_of_pos inside,
    List.takeWhile_append_of_pos inside]
  simp

theorem parse_assignment (takes : TakesText flags name) (value : Bytes) (values : Values)
    (rest : List Bytes) :
    parse flags values (assignment name value :: rest) =
      parse flags ((name, .text value) :: values) rest := by
  obtain ⟨flag, found, kind⟩ := takes.known
  rw [parse]
  simp only [takes.shapeOf, found, kind]

theorem parse_assignments {given : List (Bytes × Bytes)}
    (takes : ∀ entry ∈ given, TakesText flags entry.1) (values : Values) (rest : List Bytes) :
    parse flags values (given.map (fun entry => assignment entry.1 entry.2) ++ rest) =
      parse flags (assigned given ++ values) rest := by
  induction given generalizing values with
  | nil => rfl
  | cons entry given ih =>
      obtain ⟨first, others⟩ := List.forall_mem_cons.mp takes
      rw [List.map_cons, List.cons_append, parse_assignment first, ih others]
      simp [assigned]

section Assigned

variable {given : List (Bytes × Bytes)}

theorem assigned_names : (assigned given).map Prod.fst = (given.map Prod.fst).reverse := by
  simp [assigned, Function.comp_def]

theorem textOf_assigned {value : Bytes} (once : (given.map Prod.fst).Nodup)
    (member : (name, value) ∈ given) : textOf (assigned given) name = value := by
  have found : (assigned given).lookup name = some (.text value) := by
    apply lookup_of_mem
    · rw [assigned_names]
      exact List.nodup_reverse.mpr once
    · simpa [assigned] using member
  rw [textOf, found]

theorem textOf_assigned_nil (absent : name ∉ given.map Prod.fst) :
    textOf (assigned given) name = [] := by
  have missing : (assigned given).lookup name = none := by
    apply lookup_of_notMem
    rw [assigned_names]
    simpa using absent
  rw [textOf, missing]

end Assigned

end Flag

theorem Command.start_values (command : Command) (arguments : List Bytes) (world : World) :
    (command.start arguments world).values =
      (Flag.parse command.allFlags [] arguments).values := by
  unfold start
  dsimp only
  split
  · rfl
  · rfl
  · split <;> rfl

namespace Tool

inductive Setting where
  | directory
  | output
  | format
  | package
  | manifest
deriving DecidableEq

namespace Setting

def name : Setting → Bytes
  | directory => utf8 "dir"
  | output => utf8 "o"
  | format => utf8 "format"
  | package => utf8 "package"
  | manifest => utf8 "manifest"

def key : Setting → Bytes
  | directory => utf8 "INCLUDEDOCS_DIR"
  | output => utf8 "INCLUDEDOCS_OUTPUT"
  | format => utf8 "INCLUDEDOCS_FORMAT"
  | package => utf8 "INCLUDEDOCS_PACKAGE"
  | manifest => utf8 "INCLUDEDOCS_MANIFEST"

def sources : Setting → List Bytes
  | directory => [directory.key, utf8 "GOFILE"]
  | package => [package.key, utf8 "GOPACKAGE"]
  | other => [other.key]

def all : List Setting := [directory, output, format, package, manifest]

def ofName? (name : Bytes) : Option Setting := all.find? fun setting => setting.name == name

def ofSource? (name : Bytes) : Option Setting :=
  all.find? fun setting => setting.sources.contains name

theorem ofName?_name (setting : Setting) : ofName? setting.name = some setting := by
  cases setting <;> decide +kernel

theorem ofSource?_of_mem (setting : Setting) :
    ∀ name ∈ setting.sources, ofSource? name = some setting := by
  cases setting <;> decide +kernel

theorem name_injective : Function.Injective name := by
  intro first second same
  have found := ofName?_name first
  rw [same, ofName?_name] at found
  exact (Option.some.inj found).symm

theorem name_ne {word : Bytes} (unknown : ofName? word = none) (setting : Setting) :
    setting.name ≠ word := by
  rintro rfl
  rw [ofName?_name] at unknown
  contradiction

theorem eq_of_mem_sources {first second : Setting} {name : Bytes}
    (isFirst : name ∈ first.sources) (isSecond : name ∈ second.sources) : first = second := by
  have found := ofSource?_of_mem first name isFirst
  rw [ofSource?_of_mem second name isSecond] at found
  exact (Option.some.inj found).symm

theorem key_mem_sources (setting : Setting) : setting.key ∈ setting.sources := by
  cases setting <;> exact List.mem_cons_self ..

theorem key_injective : Function.Injective key := by
  intro first second same
  exact eq_of_mem_sources first.key_mem_sources (same ▸ second.key_mem_sources)

theorem name_plain (setting : Setting) :
    setting.name ≠ [] ∧ setting.name.head? ≠ some Byte.dash ∧ Byte.equals ∉ setting.name := by
  cases setting <;> decide +kernel

theorem takesText (setting : Setting) (version : Version) :
    Flag.TakesText (command version).allFlags setting.name := by
  obtain ⟨filled, undashed, plain⟩ := setting.name_plain
  refine ⟨filled, undashed, plain, ?_⟩
  cases setting <;> exact ⟨_, rfl, rfl⟩

end Setting

structure Choice where
  entries : List (Setting × Bytes)
  once : (entries.map Prod.fst).Nodup
  filled : ∀ entry ∈ entries, entry.2 ≠ []

namespace Choice

variable {choice : Choice} {setting : Setting} {value : Bytes}

def settings (choice : Choice) : List Setting := choice.entries.map Prod.fst

def restrict (choice : Choice) (keep : Setting → Bool) : Choice where
  entries := choice.entries.filter fun entry => keep entry.1
  once := choice.once.sublist (List.filter_sublist.map _)
  filled _ member := choice.filled _ (List.mem_of_mem_filter member)

theorem mem_restrict {keep : Setting → Bool} :
    (setting, value) ∈ (choice.restrict keep).entries ↔
      (setting, value) ∈ choice.entries ∧ keep setting = true := List.mem_filter

theorem mem_settings_iff :
    setting ∈ choice.settings ↔ ∃ value, (setting, value) ∈ choice.entries := by
  simp [settings]

theorem mem_settings_restrict {keep : Setting → Bool} :
    setting ∈ (choice.restrict keep).settings ↔
      setting ∈ choice.settings ∧ keep setting = true := by
  simp only [mem_settings_iff, mem_restrict, exists_and_right]

def saidBy (choice : Choice) (word : Setting → Bytes) : List (Bytes × Bytes) :=
  choice.entries.map fun entry => (word entry.1, entry.2)

variable {word : Setting → Bytes}

theorem words_saidBy (choice : Choice) (word : Setting → Bytes) :
    (choice.saidBy word).map Prod.fst = choice.settings.map word := by
  simp [saidBy, settings]

theorem nodup_saidBy (choice : Choice) (apart : Function.Injective word) :
    ((choice.saidBy word).map Prod.fst).Nodup := by
  rw [words_saidBy]
  exact choice.once.map apart

theorem mem_saidBy (chosen : (setting, value) ∈ choice.entries) (word : Setting → Bytes) :
    (word setting, value) ∈ choice.saidBy word :=
  List.mem_map.mpr ⟨_, chosen, rfl⟩

def arguments (choice : Choice) : List Bytes :=
  (choice.saidBy Setting.name).map fun entry => Flag.assignment entry.1 entry.2

def exports (choice : Choice) : Environment := choice.saidBy Setting.key

end Choice

def commandLine (choice : Choice) (watching : Bool) (files : List Bytes) : List Bytes :=
  choice.arguments ++ (if watching then [utf8 "-watch"] else []) ++ utf8 "--" :: files

namespace Environment

variable {environment other : Environment} {choice : Choice} {setting : Setting} {value : Bytes}

def offers (environment : Environment) : Setting → List Bytes
  | .directory =>
    [environment.get Setting.directory.key, Path.directory (environment.get (utf8 "GOFILE"))]
  | .package => [environment.get Setting.package.key, environment.get (utf8 "GOPACKAGE")]
  | other => [environment.get other.key]

theorem offers_congr (same : ∀ name ∈ setting.sources, other.get name = environment.get name) :
    other.offers setting = environment.offers setting := by
  cases setting <;> simp_all [offers, Setting.sources]

theorem offers_eq_cons (environment : Environment) (setting : Setting) :
    ∃ others, environment.offers setting = environment.get setting.key :: others := by
  cases setting <;> exact ⟨_, rfl⟩

theorem get_append_of_notMem {first : Environment} {name : Bytes}
    (absent : name ∉ first.map Prod.fst) :
    get (first ++ environment) name = get environment name := by
  rw [get, List.lookup_append, lookup_of_notMem absent, Option.none_or, get]

theorem get_exports (chosen : (setting, value) ∈ choice.entries) :
    get (choice.exports ++ environment) setting.key = value := by
  have found : choice.exports.lookup setting.key = some value :=
    lookup_of_mem (choice.nodup_saidBy Setting.key_injective)
      (Choice.mem_saidBy chosen Setting.key)
  rw [get, List.lookup_append, found]
  rfl

end Environment

namespace Settings

variable {settings first second : Settings} {environment other : Environment} {value : Bytes}

def get (settings : Settings) : Setting → Bytes
  | .directory => settings.directory
  | .output => settings.output
  | .format => settings.format
  | .package => settings.package
  | .manifest => settings.manifest

theorem ext_get (same : ∀ setting, first.get setting = second.get setting)
    (watch : first.watch = second.watch) : first = second := by
  cases first
  cases second
  rw [Settings.mk.injEq]
  exact ⟨same .directory, same .output, same .format, same .package, same .manifest, watch⟩

theorem get_ofFlags (values : Flag.Values) (setting : Setting) :
    (ofFlags values).get setting = Flag.textOf values setting.name := by
  cases setting <;> rfl

theorem get_complete (settings : Settings) (environment : Environment) (setting : Setting) :
    (settings.complete environment).get setting =
      firstGiven (settings.get setting :: environment.offers setting) := by
  cases setting <;> rfl

theorem firstGiven_of_ne_nil (filled : value ≠ []) (others : List Bytes) :
    firstGiven (value :: others) = value := by
  rw [firstGiven, if_neg (by simpa using filled)]

theorem complete_congr (same : ∀ setting, settings.get setting = [] → ∀ name ∈ setting.sources,
    other.get name = environment.get name) :
    settings.complete other = settings.complete environment := by
  refine ext_get ?_ rfl
  intro setting
  rw [get_complete, get_complete]
  by_cases given : settings.get setting = []
  · rw [Environment.offers_congr (same setting given)]
  · rw [firstGiven_of_ne_nil given, firstGiven_of_ne_nil given]

end Settings

def Setting.given (setting : Setting) (version : Version) (arguments : List Bytes) : Bytes :=
  Flag.textOf (Flag.parse (command version).allFlags [] arguments).values setting.name

section CommandLines

variable {choice : Choice} {setting : Setting} {value : Bytes} {watching : Bool}
  {environment : Environment}

def valuesOf (choice : Choice) (watching : Bool) : Flag.Values :=
  (if watching then [(utf8 "watch", .switch true)] else []) ++
    Flag.assigned (choice.saidBy Setting.name)

theorem lookup_assigned_eq_none {word : Bytes} (unknown : Setting.ofName? word = none) :
    (Flag.assigned (choice.saidBy Setting.name)).lookup word = none := by
  apply lookup_of_notMem
  rw [Flag.assigned_names, Choice.words_saidBy]
  simp [Setting.name_ne unknown]

theorem parse_commandLine (version : Version) (choice : Choice) (watching : Bool)
    (files : List Bytes) :
    Flag.parse (command version).allFlags [] (commandLine choice watching files) =
      ⟨valuesOf choice watching, files, none⟩ := by
  have takes : ∀ entry ∈ choice.saidBy Setting.name,
      Flag.TakesText (command version).allFlags entry.1 := by
    intro entry member
    obtain ⟨chosen, -, rfl⟩ := List.mem_map.mp member
    exact chosen.1.takesText version
  rw [commandLine, List.append_assoc, Choice.arguments, Flag.parse_assignments takes,
    List.append_nil, valuesOf]
  cases watching <;> rfl

theorem switchOf_version :
    Flag.switchOf (valuesOf choice watching) Command.versionFlag.name = false := by
  have missing : (valuesOf choice watching).lookup Command.versionFlag.name = none := by
    rw [valuesOf, List.lookup_append, lookup_assigned_eq_none (by decide +kernel)]
    cases watching <;> rfl
  rw [Flag.switchOf, missing]

theorem start_commandLine (version : Version) (choice : Choice) (watching : Bool)
    (files : List Bytes) (world : World) :
    (command version).start (commandLine choice watching files) world =
      ⟨world, valuesOf choice watching, .ok files⟩ := by
  rw [Command.start]
  simp only [parse_commandLine, switchOf_version, Bool.and_false, Bool.false_eq_true, if_false]

theorem get_start (version : Version) (arguments : List Bytes) (world : World)
    (setting : Setting) :
    (Settings.ofFlags ((command version).start arguments world).values).get setting =
      setting.given version arguments := by
  rw [Settings.get_ofFlags, Command.start_values, Setting.given]

theorem watch_valuesOf : (Settings.ofFlags (valuesOf choice watching)).watch = watching := by
  change Flag.switchOf _ _ = _
  cases watching with
  | true => rfl
  | false =>
      have missing : (valuesOf choice false).lookup (utf8 "watch") = none :=
        lookup_assigned_eq_none (by decide +kernel)
      rw [Flag.switchOf, missing]

theorem textOf_valuesOf (setting : Setting) :
    Flag.textOf (valuesOf choice watching) setting.name =
      Flag.textOf (Flag.assigned (choice.saidBy Setting.name)) setting.name := by
  cases watching with
  | false => rfl
  | true =>
      have other : (setting.name == utf8 "watch") = false := by
        simpa using Setting.name_ne (by decide +kernel) setting
      rw [Flag.textOf, Flag.textOf, valuesOf, if_pos rfl, List.cons_append, List.lookup_cons, other,
        List.nil_append]

theorem textOf_of_chosen (chosen : (setting, value) ∈ choice.entries) :
    Flag.textOf (valuesOf choice watching) setting.name = value := by
  rw [textOf_valuesOf]
  exact Flag.textOf_assigned (choice.nodup_saidBy Setting.name_injective)
    (Choice.mem_saidBy chosen Setting.name)

theorem given_of_chosen (chosen : (setting, value) ∈ choice.entries) (version : Version)
    (files : List Bytes) : setting.given version (commandLine choice watching files) = value := by
  rw [Setting.given, parse_commandLine, textOf_of_chosen chosen]

theorem get_of_chosen (chosen : (setting, value) ∈ choice.entries) :
    (Settings.ofFlags (valuesOf choice watching)).get setting = value := by
  rw [Settings.get_ofFlags, textOf_of_chosen chosen]

theorem get_of_open (unchosen : setting ∉ choice.settings) :
    (Settings.ofFlags (valuesOf choice watching)).get setting = [] := by
  rw [Settings.get_ofFlags, textOf_valuesOf]
  apply Flag.textOf_assigned_nil
  rwa [Choice.words_saidBy, List.mem_map_of_injective Setting.name_injective]

theorem get_complete_of_chosen (chosen : (setting, value) ∈ choice.entries) :
    ((Settings.ofFlags (valuesOf choice watching)).complete environment).get setting = value := by
  rw [Settings.get_complete, get_of_chosen chosen]
  exact Settings.firstGiven_of_ne_nil (choice.filled _ chosen) _

theorem get_complete_of_open (unchosen : setting ∉ choice.settings) :
    ((Settings.ofFlags (valuesOf choice watching)).complete environment).get setting =
      firstGiven (environment.offers setting) := by
  rw [Settings.get_complete, get_of_open unchosen, firstGiven]
  rfl

theorem offers_exports (unchosen : setting ∉ choice.settings) :
    Environment.offers (choice.exports ++ environment) setting = environment.offers setting := by
  apply Environment.offers_congr
  intro name source
  apply Environment.get_append_of_notMem
  rw [Choice.exports, Choice.words_saidBy]
  intro exported
  obtain ⟨other, chosen, rfl⟩ := List.mem_map.mp exported
  exact unchosen (Setting.eq_of_mem_sources other.key_mem_sources source ▸ chosen)

theorem complete_restrict (choice : Choice) (moved : Setting → Bool) (watching : Bool)
    (environment : Environment) :
    (Settings.ofFlags (valuesOf (choice.restrict fun setting => !moved setting) watching)).complete
        ((choice.restrict moved).exports ++ environment) =
      (Settings.ofFlags (valuesOf choice watching)).complete environment := by
  refine Settings.ext_get ?_ (watch_valuesOf.trans watch_valuesOf.symm)
  intro setting
  by_cases chosen : setting ∈ choice.settings
  · obtain ⟨value, member⟩ := Choice.mem_settings_iff.mp chosen
    rw [get_complete_of_chosen member]
    cases isMoved : moved setting with
    | true =>
        have unflagged : setting ∉ (choice.restrict fun setting => !moved setting).settings := by
          simp [Choice.mem_settings_restrict, isMoved]
        have exported : (setting, value) ∈ (choice.restrict moved).entries :=
          Choice.mem_restrict.mpr ⟨member, isMoved⟩
        obtain ⟨others, offered⟩ := Environment.offers_eq_cons
          ((choice.restrict moved).exports ++ environment) setting
        rw [get_complete_of_open unflagged, offered, Environment.get_exports exported]
        exact Settings.firstGiven_of_ne_nil (choice.filled _ member) others
    | false => exact get_complete_of_chosen (Choice.mem_restrict.mpr ⟨member, by simp [isMoved]⟩)
  · have unflagged : setting ∉ (choice.restrict fun setting => !moved setting).settings :=
      fun flagged => chosen (Choice.mem_settings_restrict.mp flagged).1
    have unexported : setting ∉ (choice.restrict moved).settings :=
      fun exported => chosen (Choice.mem_settings_restrict.mp exported).1
    rw [get_complete_of_open unflagged, get_complete_of_open chosen, offers_exports unexported]

theorem complete_of_given {version : Version} {arguments : List Bytes} {world : World}
    {other : Environment}
    (same : ∀ name,
      (∀ setting : Setting, name ∈ setting.sources → setting.given version arguments = []) →
      other.get name = environment.get name) :
    (Settings.ofFlags ((command version).start arguments world).values).complete other =
      (Settings.ofFlags ((command version).start arguments world).values).complete environment := by
  apply Settings.complete_congr
  intro setting blank name source
  apply same
  intro claimant isSource
  rw [Setting.eq_of_mem_sources isSource source, ← get_start, blank]

end CommandLines

namespace Session

theorem run_commandLine (interpreter : Interpreter) (version : Version)
    (environment : Environment) (choice : Choice) (watching : Bool) (files : List Bytes)
    (world : World) :
    run interpreter version environment (commandLine choice watching files) world =
      perform interpreter ((Settings.ofFlags (valuesOf choice watching)).complete environment) files
        world := by
  simp only [run, start_commandLine]

/-- Any of the settings that flags give may as well be given by variables of the environment: the
run is the same. Of a setting that a flag gives, nothing counts that the environment says, however
the flag is written. -/
theorem run_flags_or_variables (interpreter : Interpreter) (version : Version) (world : World) :
    (∀ (choice : Choice) (moved : Setting → Bool) (watching : Bool) (files : List Bytes)
      (environment : Environment),
      run interpreter version ((choice.restrict moved).exports ++ environment)
          (commandLine (choice.restrict fun setting => !moved setting) watching files) world =
        run interpreter version environment (commandLine choice watching files) world) ∧
    ∀ (arguments : List Bytes) (environment other : Environment),
      (∀ name,
        (∀ setting : Setting, name ∈ setting.sources → setting.given version arguments = []) →
        other.get name = environment.get name) →
      run interpreter version other arguments world =
        run interpreter version environment arguments world := by
  constructor
  · intro choice moved watching files environment
    rw [run_commandLine, run_commandLine, complete_restrict]
  · intro arguments environment other same
    simp only [run, complete_of_given same]

namespace Guide

def choice : Choice where
  entries := [(.directory, utf8 "src"), (.output, utf8 "doc.go"), (.format, utf8 "go"),
    (.package, utf8 "guide")]
  once := by decide
  filled := by decide +kernel

def moved (setting : Setting) : Bool := setting = .format ∨ setting = .package

def flagged : List Bytes :=
  ["-dir=src", "-o=doc.go", "-format=go", "-package=guide", "--", "lib.rs"].map utf8

def mixed : List Bytes := ["-dir=src", "-o=doc.go", "--", "lib.rs"].map utf8

def exported : Environment :=
  [(utf8 "INCLUDEDOCS_FORMAT", utf8 "go"), (utf8 "INCLUDEDOCS_PACKAGE", utf8 "guide")]

def stray : Environment :=
  [(utf8 "GOFILE", utf8 "gen/doc.go"), (utf8 "INCLUDEDOCS_OUTPUT", utf8 "README.md")]

def world : World := .ofTree (.empty [])

def version : Version := .development (utf8 "go") (utf8 "linux") (utf8 "amd64")

theorem run_flags_or_variables_guide :
    run Script.interpreter version exported mixed world =
        run Script.interpreter version [] flagged world ∧
      run Script.interpreter version stray flagged world =
        run Script.interpreter version [] flagged world := by
  have isFlagged : commandLine choice false [utf8 "lib.rs"] = flagged := by decide +kernel
  have isMixed : commandLine (choice.restrict fun setting => !moved setting) false
      [utf8 "lib.rs"] = mixed := by decide +kernel
  have isExported : (choice.restrict moved).exports ++ [] = exported := by decide +kernel
  obtain ⟨either, unread⟩ := run_flags_or_variables Script.interpreter version world
  rw [← isFlagged, ← isMixed, ← isExported]
  refine ⟨either choice moved false _ [], unread _ _ _ ?_⟩
  intro name blank
  have unset : name ∉ stray.map Prod.fst := by
    intro member
    rcases List.mem_pair.mp member with rfl | rfl
    · have chosen : (.directory, utf8 "src") ∈ choice.entries := List.mem_cons_self ..
      have given := blank .directory (by decide +kernel)
      rw [given_of_chosen chosen] at given
      exact choice.filled _ chosen given
    · have chosen : (.output, utf8 "doc.go") ∈ choice.entries :=
        List.mem_cons_of_mem _ (List.mem_cons_self ..)
      have given := blank .output (by decide +kernel)
      rw [given_of_chosen chosen] at given
      exact choice.filled _ chosen given
  rw [Environment.get, lookup_of_notMem unset]
  rfl

end Guide

end Session

end Tool

end DocPrologue
