import LanguageRelay.CommandLine
import LanguageRelay.Proofs.Config.Layers
import LanguageRelay.Proofs.Config.Texts
import LanguageRelay.Proofs.Toml.Documents
/-!
# What a bad configuration comes to

A configuration that comes about is in order (`Valid`). One that does not has a
fault, and most faults have a wording: the command line tells it and exits as
for a wrong option. **Two kinds of fault have none** and escape: an infinite
number where an integer is needed, and an integer with more digits than are
written, where a text of it is needed. `escapes_build` says when exactly.
-/

namespace LanguageRelay

namespace Config

open Settings

variable {α β : Type} {value : Setting} {name : String}

/-! ## Faults without wording -/

/-- The outcome is a fault that has no wording. -/
def Escapes (x : Except ConfigFault α) : Prop := ∃ fault, x = .error fault ∧ fault.message? = none

@[simp] theorem not_escapes_ok (a : α) : ¬ Escapes (.ok a : Except ConfigFault α) :=
  fun ⟨_, h, _⟩ => nomatch h

@[simp] theorem escapes_error (fault : ConfigFault) :
    Escapes (.error fault : Except ConfigFault α) ↔ fault.message? = none := by
  simp [Escapes]

/-- A chain of steps fails without a word where its first failing step does. -/
theorem escapes_bind {x : Except ConfigFault α} {f : α → Except ConfigFault β} :
    Escapes (x >>= f) ↔ Escapes x ∨ ∃ a, x = .ok a ∧ Escapes (f a) := by
  cases x with
  | ok a => simp [bind, Except.bind]
  | error fault => simp [bind, Except.bind]

theorem escapes_map {x : Except ConfigFault α} {f : α → β} : Escapes (x.map f) ↔ Escapes x := by
  cases x <;> simp [Except.map]

/-- What cannot be written cannot be shown. -/
theorem message?_showing {fault : ConfigFault} (h : fault.message? ≠ none) :
    (fault.showing value).message? = none ↔ value.isWritable = false := by
  unfold ConfigFault.showing
  cases value.isWritable with
  | true => simpa using h
  | false => simp [ConfigFault.message?]

@[simp] theorem message?_showing_notInteger {v : Setting} :
    ((ConfigFault.notInteger name v).showing value).message? = none ↔ value.isWritable = false :=
  message?_showing nofun

@[simp] theorem message?_showing_notPositive {n : Int} :
    ((ConfigFault.notPositive name n).showing value).message? = none ↔ value.isWritable = false :=
  message?_showing nofun

@[simp] theorem message?_showing_argumentsNoList {v : Setting} :
    ((ConfigFault.argumentsNoList v).showing value).message? = none ↔ value.isWritable = false :=
  message?_showing nofun

/-! ## Texts -/

@[simp] theorem escapes_writtenText : Escapes (writtenText value) ↔ value.isWritable = false := by
  unfold writtenText
  cases value.isWritable <;> simp [ConfigFault.message?]

/-- What is not given can be written. -/
theorem isTruthy_of_not_isWritable (h : value.isWritable = false) : value.isTruthy = true := by
  cases value with
  | int n =>
    rcases eq_or_ne n 0 with rfl | hn
    · simp [Setting.isWritable] at h
    · simpa [Setting.isTruthy] using hn
  | list items => cases items <;> simp_all [Setting.isWritable, Setting.areWritable,
      Setting.isTruthy]
  | table fields => cases fields <;> simp_all [Setting.isWritable, Setting.fieldsAreWritable,
      Setting.isTruthy]
  | _ => simp [Setting.isWritable] at h

@[simp] theorem escapes_givenText : Escapes (givenText value) ↔ value.isWritable = false := by
  unfold givenText
  split
  · rw [escapes_map, escapes_writtenText]
  · rename_i hfalsy
    simp only [not_escapes_ok, false_iff]
    exact fun h => hfalsy (isTruthy_of_not_isWritable h)

/-- The items of a list are written one by one. -/
theorem escapes_mapM_writtenText (items : List Setting) :
    Escapes (items.mapM writtenText) ↔ Setting.areWritable items = false := by
  induction items with
  | nil => simp [Setting.areWritable, pure, Except.pure]
  | cons v rest ih =>
    rw [List.mapM_cons, escapes_bind, escapes_writtenText, Setting.areWritable]
    simp only [escapes_bind, ih, pure, Except.pure, not_escapes_ok, and_false, exists_false,
      or_false]
    cases hv : v.isWritable <;> simp [writtenText, hv]

@[simp] theorem escapes_argumentsOf : Escapes (argumentsOf value) ↔ value.isWritable = false := by
  cases value with
  | str s => simp [argumentsOf, Setting.isWritable]
  | list items => exact escapes_mapM_writtenText items
  | _ => simp [argumentsOf]

/-! ## Words -/

@[simp] theorem escapes_changeSyncOf : Escapes (changeSyncOf value) ↔ value.isWritable = false := by
  have hnamed : ∀ word, ¬ Escapes (changeSyncNamed word) := fun word => by
    unfold changeSyncNamed
    split
    · exact not_escapes_ok _
    · split <;> simp [ConfigFault.message?]
  rw [changeSyncOf, escapes_bind, escapes_writtenText]
  simp [hnamed]

theorem not_escapes_categoriesOf : ¬ Escapes (categoriesOf value) := by
  unfold categoriesOf
  dsimp only
  split
  · exact not_escapes_ok _
  · split <;> simp [ConfigFault.message?]

/-! ## Numbers -/

/-- **A setting that is neither a positive integer nor can be shown**: an
infinite number, or something with too long an integer in it. -/
def Stray (value : Setting) : Prop :=
  (∃ negative, value = .float (.infinite negative)) ∨
    value.isWritable = false ∧ ∀ n, value = .int n → n ≤ 0

@[simp] theorem escapes_positive : Escapes (positive name value) ↔ Stray value := by
  by_cases hbool : ∃ b, value = .bool b
  · obtain ⟨b, rfl⟩ := hbool
    simp [positive, Stray, Setting.isWritable, ConfigFault.message?]
  rw [not_exists] at hbool
  rw [positive_of_not_bool hbool, Stray]
  cases value with
  | bool b => exact absurd rfl (hbool b)
  | int n => by_cases hn : n ≤ 0 <;> simp [Setting.toInteger, hn]
  | float x =>
    cases x with
    | infinite negative => simp [Setting.toInteger, Json.toInteger, ConfigFault.message?]
    | nan => simp [Setting.toInteger, Json.toInteger, Setting.isWritable]
    | finite negative m e =>
      simp only [Setting.toInteger, Json.toInteger]
      split <;> simp [Setting.isWritable]
  | str s =>
    simp only [Setting.toInteger, Json.toInteger]
    cases Numeral.readInt? s.toList with
    | none => simp [Setting.isWritable]
    | some n => by_cases hn : n ≤ 0 <;> simp [hn, Setting.isWritable]
  | _ => simp [Setting.toInteger]

/-- Zero is an integer that can be shown. -/
theorem not_stray_of_isZero (h : isZero value) : ¬ Stray value := by
  rintro (⟨negative, rfl⟩ | ⟨hlong, -⟩)
  · simp [isZero, Double.isZero] at h
  · cases value with
    | int n =>
      obtain rfl : n = 0 := by simpa [isZero] using h
      simp [Setting.isWritable] at hlong
    | float x => simp [Setting.isWritable] at hlong
    | str s => simp [Setting.isWritable] at hlong
    | _ => cases h

@[simp] theorem escapes_nonNegative : Escapes (nonNegative name value) ↔ Stray value := by
  unfold nonNegative
  split
  · rename_i hzero
    simp [not_stray_of_isZero hzero]
  · exact escapes_positive

/-- The text of a variable can be shown. -/
theorem not_escapes_fromEnvironment (env : List (String × String)) :
    ¬ Escapes (fromEnvironment env) := by
  rw [fromEnvironment_eq]
  unfold fromVariable?
  split
  · exact not_escapes_ok _
  · rename_i text htext
    split at htext
    · cases htext
    · cases htext
      simp [escapes_map, Stray, Setting.isWritable]

/-! ## Configurations -/

variable {server diagnostics documents : Settings} {file : Settings}
variable {env : List (String × String)} {overrides : Settings} {c : Config}

/-- **Settings whose fault has no wording**: they are read in a fixed order,
and one of them fails without a word before any other fails at all. -/
def Unworded (server diagnostics documents : Settings) : Prop :=
  (∃ names, categoriesOf (getD "categories" .null diagnostics) = .ok names) ∧
  ((getD "change_sync" (.str "incremental") documents).isWritable = false ∨
    (∃ mode, changeSyncOf (getD "change_sync" (.str "incremental") documents) = .ok mode) ∧
    ((getD "args" (.list []) server).isWritable = false ∨
      (∃ arguments, argumentsOf (getD "args" (.list []) server) = .ok arguments) ∧
      ((getD "path" .null server).isWritable = false ∨
        (getD "log_file" .null server).isWritable = false ∨
        (getD "log_verbosity" .null server).isWritable = false ∨
        Stray (getD "request_timeout_ms" (.int default.timeout) server) ∨
        (∃ n, Counts (getD "request_timeout_ms" (.int default.timeout) server) n) ∧
          Stray (getD "delay_ms" (.int default.delay) diagnostics))))

/-- A text is made of what can be written. -/
theorem exists_givenText_eq_ok :
    (∃ text, givenText value = .ok text) ↔ ¬ value.isWritable = false := by
  rw [← escapes_givenText]
  unfold givenText writtenText
  cases value.isTruthy <;> cases value.isWritable <;> simp [ConfigFault.message?, Except.map]

theorem escapes_ofSections :
    Escapes (ofSections server diagnostics documents) ↔
      Unworded server diagnostics documents := by
  have hlater (b : Bool) (P : Prop) : b = false ∨ ¬ b = false ∧ P ↔ b = false ∨ P := by
    cases b <;> simp
  simp only [ofSections, escapes_bind, not_escapes_categoriesOf, false_or, escapes_changeSyncOf,
    escapes_argumentsOf, escapes_givenText, escapes_positive, escapes_nonNegative, pure,
    Except.pure, not_escapes_ok, and_false, exists_false, or_false, exists_and_right,
    exists_givenText_eq_ok, hlater, positive_eq_ok, Unworded]

/-- **A configuration fails without a word where its settings do**: the
environment always has a wording. -/
theorem escapes_build :
    Escapes (build file env overrides) ↔
      ∃ fromEnv, fromEnvironment env = .ok fromEnv ∧
        Unworded (serverSettings fromEnv file overrides) (sectionOf "diagnostics" file)
          (sectionOf "documents" file) := by
  rw [build_eq, escapes_bind]
  simp only [not_escapes_fromEnvironment, false_or, escapes_ofSections]

/-- A configuration that is in order. -/
structure Valid (c : Config) : Prop where
  path : c.path ≠ ""
  timeout : 1 ≤ c.timeout
  delay : 0 ≤ c.delay
  categories : c.categories ≠ []
  known : ∀ name ∈ c.categories, name ∈ knownCategories
  changeSync : c.changeSync = .incremental ∨ c.changeSync = .full

/-- The text of a setting that is given is never empty. -/
theorem textOf?_ne_empty {given : Option Setting} {text : String} (h : textOf? given = some text) :
    text ≠ "" := by
  obtain ⟨v, hv, rfl⟩ := Option.map_eq_some_iff.mp h
  exact Setting.text_ne_empty (Option.filter_eq_some_iff.mp hv).2

/-- **A configuration that comes about is in order.** -/
theorem valid_of_build (h : build file env overrides = .ok c) : c.Valid := by
  rw [build_eq] at h
  obtain ⟨fromEnv, -, h⟩ := bind_eq_ok.mp h
  have hpath := path_of_ofSections h
  obtain ⟨hcategories, -, -, -, -, -, htimeout, hdelay⟩ := ofSections_eq_ok.mp h
  refine ⟨?_, (positive_eq_ok.mp htimeout).2.2, ?_, categories_ne_nil hcategories,
    (categoriesOf_eq_ok.mp hcategories).2, ?_⟩
  · rw [hpath]
    cases htext : textOf? (Table.get? "path" (serverSettings fromEnv file overrides)) with
    | none => decide
    | some text => exact textOf?_ne_empty htext
  · rcases nonNegative_eq_ok.mp hdelay with ⟨-, hzero⟩ | ⟨-, hcounts⟩
    · exact Int.le_of_eq hzero.symm
    · exact Int.le_of_lt hcounts.2.2
  · cases c.changeSync with
    | incremental => exact .inl rfl
    | full => exact .inr rfl

end Config

/-! ## The command line -/

namespace CommandLine

open Config

variable {args : List String} {env : List (String × String)} {file : Option (List UInt8)}
variable {o : Options}

/-- A fault of the settings is told as one of the command line if it has a
wording. -/
theorem exitCode_configuration (fault : ConfigFault) :
    (Fault.configuration fault).exitCode = 2 ↔ fault.message? ≠ none := by
  cases fault <;> simp [Fault.exitCode, ConfigFault.message?]

/-- A relay that starts does so with the configuration, or has its fault. -/
theorem run_start (hparse : parse args = .ok (.start o)) (hlevel : (level? o.logLevel).isSome)
    (env : List (String × String)) (file : Option (List UInt8)) :
    (run args env file none).fault =
        (match configOf o env file with
          | .ok _ => none
          | .error fault => some fault) ∧
      (run args env file none).config = (configOf o env file).toOption := by
  obtain ⟨level, hlevel⟩ := Option.isSome_iff_exists.mp hlevel
  have hrun : run args env file none = startAt level o env file := by
    rw [run, hparse]
    dsimp only
    unfold start
    rw [hlevel]
  rw [hrun, startAt]
  split <;> rename_i h <;> rw [h] <;> exact ⟨rfl, rfl⟩

theorem configOf_eq_ok {c : Config} :
    configOf o env file = .ok c ↔
      ∃ settings, load file = .ok settings ∧ build settings env (overridesOf o) = .ok c := by
  simp only [configOf, bind_eq_ok, mapError_eq_ok]

/-- **What the caller is not told to mend**: a file that is not read, and
settings that fail without a word. -/
theorem configOf_other_fault :
    (∃ fault, configOf o env file = .error fault ∧ fault.exitCode ≠ 2) ↔
      (∃ fault, load file = .error fault) ∨
        ∃ settings, load file = .ok settings ∧ Escapes (build settings env (overridesOf o)) := by
  unfold configOf
  cases load file with
  | error fault => simp [bind, Except.bind, Fault.exitCode]
  | ok settings =>
    simp only [mapError_ok, bind, Except.bind, Except.ok.injEq, exists_eq_left', reduceCtorEq,
      exists_false, false_or]
    cases build settings env (overridesOf o) with
    | error fault => simp [exitCode_configuration]
    | ok c => simp

end CommandLine

namespace Config

open Settings CommandLine

/-- **Faults of a configuration are contained, but for two kinds.**

A file that is missing or no TOML gives no settings. Reading it fails where it
is no UTF-8, and else only where it has a row of digits that is too long. A
configuration that comes about is in order; one that does not fails with a
wording, unless its settings fail without one. The command line starts with a
configuration that comes about, and tells the caller of any other fault but
these. -/
theorem faults_contained (file : Option (List UInt8)) (env : List (String × String)) :
    load none = .ok [] ∧
    (∀ text, Toml.read (plainLineEnds text) = .error .malformed →
      load (some (Utf8.encode text)) = .ok []) ∧
    (∀ fault, load file = .error fault → ∃ bytes, file = some bytes ∧ fault.FoundIn bytes) ∧
    (∀ bytes, FileFault.notText.FoundIn bytes → load (some bytes) = .error .notText) ∧
    (∀ settings overrides,
      (∀ c, build settings env overrides = .ok c → c.Valid) ∧
      (Escapes (build settings env overrides) ↔
        ∃ fromEnv, fromEnvironment env = .ok fromEnv ∧
          Unworded (serverSettings fromEnv settings overrides) (sectionOf "diagnostics" settings)
            (sectionOf "documents" settings))) ∧
    ∀ args o, parse args = .ok (.start o) → (level? o.logLevel).isSome →
      (∀ c, (run args env file none).config = some c ↔
        ∃ settings, load file = .ok settings ∧ build settings env (overridesOf o) = .ok c) ∧
      ((run args env file none).fault = none ↔ (run args env file none).config ≠ none) ∧
      ((∃ fault, (run args env file none).fault = some fault ∧ fault.exitCode ≠ 2) ↔
        (∃ fault, load file = .error fault) ∨
          ∃ settings, load file = .ok settings ∧
            Escapes (build settings env (overridesOf o))) := by
  refine ⟨rfl, fun text => load_of_malformed, fun fault => load_eq_error,
    fun bytes => load_of_notText,
    fun settings overrides => ⟨fun c => valid_of_build, escapes_build⟩,
    fun args o hparse hlevel => ?_⟩
  obtain ⟨hfault, hconfig⟩ := run_start hparse hlevel env file
  rw [hfault, hconfig, ← configOf_other_fault]
  refine ⟨fun c => ?_, ?_, ?_⟩
  · rw [← configOf_eq_ok]
    cases configOf o env file <;> simp [Except.toOption]
  · cases configOf o env file <;> simp [Except.toOption]
  · cases configOf o env file <;> simp

/-- A file with an infinite time limit. -/
def endlessFile : List UInt8 := Utf8.encode "[tsserver]\nrequest_timeout_ms = inf\n".toList

/-- Its settings. -/
def endlessSettings : Settings :=
  [("tsserver", .table [("request_timeout_ms", .float (.infinite false))])]

theorem load_endlessFile : load (some endlessFile) = .ok endlessSettings := by
  have hread : Toml.read (plainLineEnds "[tsserver]\nrequest_timeout_ms = inf\n".toList) =
      .ok endlessSettings := by cbv
  rw [endlessFile, load, Utf8.decode?_encode]
  dsimp only
  rw [hread]

/-- With this file the relay does not start, and the caller is not told to mend
anything. -/
theorem faults_contained_endless :
    ∃ fault, (run [] [] (some endlessFile) none).fault = some fault ∧ fault.exitCode ≠ 2 := by
  obtain ⟨-, -, -, -, -, hrun⟩ := faults_contained (some endlessFile) []
  obtain ⟨-, -, hother⟩ := hrun [] ⟨none, none, none, "INFO", none⟩ rfl rfl
  exact hother.mpr (.inr ⟨endlessSettings, load_endlessFile, .infinite, rfl, rfl⟩)

/-- **A byte that is no text is not contained, nor is an infinite time limit.** -/
theorem faults_not_contained :
    load (some [0xff]) = .error .notText ∧
    load (some endlessFile) = .ok endlessSettings ∧
    build endlessSettings [] [] = .error .infinite ∧
    ConfigFault.infinite.message? = none ∧
    ((run [] [] (some [0xff]) none).fault.map Fault.exitCode) = some 1 :=
  ⟨rfl, load_endlessFile, rfl, rfl, rfl⟩

end Config

end LanguageRelay
