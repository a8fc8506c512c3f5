import LanguageRelay.Config.Build
import LanguageRelay.Proofs.Fallible
/-!
# What the values of a configuration come to

Each field of a configuration is made of one setting, by a function of its
own. Here is what a value that comes out of such a function satisfies, and
which values a configuration is put together of (`ofSections_eq_ok`).
-/

namespace LanguageRelay

namespace Config

variable {name : String} {value : Setting} {n : Int}

/-! ## Numbers -/

/-- The setting stands for an integer above zero, and is no truth value. -/
def Counts (value : Setting) (n : Int) : Prop :=
  (∀ b, value ≠ .bool b) ∧ value.toInteger = .ok n ∧ 0 < n

/-- A setting that is no truth value is read as an integer. -/
theorem positive_of_not_bool (h : ∀ b, value ≠ .bool b) :
    positive name value =
      match value.toInteger with
      | .error .infinite => .error .infinite
      | .error _ => .error (.showing value (.notInteger name value))
      | .ok n =>
        if n ≤ 0 then .error (.showing value (.notPositive name n)) else .ok n := by
  unfold positive
  split
  · rename_i b
    exact absurd rfl (h b)
  · rfl

/-- The name matters for the wording of a fault alone. -/
theorem positive_eq_ok : positive name value = .ok n ↔ Counts value n := by
  by_cases hbool : ∃ b, value = .bool b
  · obtain ⟨b, rfl⟩ := hbool
    simp [positive, Counts]
  · rw [not_exists] at hbool
    rw [positive_of_not_bool hbool, Counts]
    cases hinteger : value.toInteger with
    | error fault => cases fault <;> simp
    | ok k =>
      by_cases hk : k ≤ 0
      · simp only [if_pos hk]
        refine ⟨nofun, fun ⟨_, h, hn⟩ => ?_⟩
        cases h
        omega
      · simp only [if_neg hk, Except.ok.injEq]
        exact ⟨fun h => ⟨hbool, h, by omega⟩, fun h => h.2.1⟩

theorem nonNegative_eq_ok :
    nonNegative name value = .ok n ↔
      isZero value = true ∧ n = 0 ∨ isZero value = false ∧ Counts value n := by
  unfold nonNegative
  cases hzero : isZero value with
  | true => simp [eq_comm]
  | false => simp [positive_eq_ok]

/-! ## Names -/

/-- Categories that are accepted are the names that are listed, each of them
known, or all there are where none is listed. -/
theorem categoriesOf_eq_ok {names : List String} :
    categoriesOf value = .ok names ↔
      names = (if nameList value = [] then knownCategories else nameList value) ∧
        ∀ name ∈ names, name ∈ knownCategories := by
  unfold categoriesOf
  by_cases hnone : nameList value = []
  · simp only [hnone, List.isEmpty_nil, if_true, Except.ok.injEq]
    exact ⟨fun h => ⟨h.symm, fun name hname => h ▸ hname⟩, fun h => h.1.symm⟩
  · have hsome : (nameList value).isEmpty = false := by simpa using hnone
    simp only [hsome, if_neg hnone, Bool.false_eq_true, if_false]
    by_cases hknown : ∀ name ∈ nameList value, name ∈ knownCategories
    · have hunknown :
          ((nameList value).filter fun name => !knownCategories.contains name) = [] := by
        simpa [List.filter_eq_nil_iff] using hknown
      simp only [hunknown, List.isEmpty_nil, if_true, Except.ok.injEq]
      exact ⟨fun h => ⟨h.symm, h ▸ hknown⟩, fun h => h.1.symm⟩
    · have hunknown :
          ((nameList value).filter fun name => !knownCategories.contains name).isEmpty = false := by
        simpa [List.filter_eq_nil_iff] using hknown
      simp only [hunknown, Bool.false_eq_true, if_false]
      exact ⟨nofun, fun ⟨h, hall⟩ => absurd (h ▸ hall) hknown⟩

/-- There is always a category. -/
theorem categories_ne_nil {names : List String} (h : categoriesOf value = .ok names) :
    names ≠ [] := by
  obtain ⟨rfl, -⟩ := categoriesOf_eq_ok.mp h
  split
  · decide
  · assumption

/-! ## Texts -/

/-- What a text is made of: a setting that is given. -/
def textOf? (given : Option Setting) : Option String :=
  (given.filter Setting.isTruthy).map Setting.text

theorem givenText_eq_ok {text : Option String} (h : givenText value = .ok text) :
    text = textOf? (some value) := by
  unfold givenText at h
  cases htruthy : value.isTruthy with
  | false =>
    rw [htruthy] at h
    cases h
    rw [textOf?, Option.filter_some, htruthy]
    rfl
  | true =>
    rw [htruthy, if_pos rfl, writtenText] at h
    split at h <;> cases h
    rw [textOf?, Option.filter_some, htruthy]
    rfl

/-! ## Together -/

variable {server diagnostics documents : Settings} {c : Config}

/-- **A configuration is made of its values one by one.** -/
theorem ofSections_eq_ok :
    ofSections server diagnostics documents = .ok c ↔
      categoriesOf (Settings.getD "categories" .null diagnostics) = .ok c.categories ∧
      changeSyncOf (Settings.getD "change_sync" (.str "incremental") documents) =
        .ok c.changeSync ∧
      argumentsOf (Settings.getD "args" (.list []) server) = .ok c.arguments ∧
      (∃ path, givenText (Settings.getD "path" .null server) = .ok path ∧
        c.path = path.getD default.path) ∧
      givenText (Settings.getD "log_file" .null server) = .ok c.logFile ∧
      givenText (Settings.getD "log_verbosity" .null server) = .ok c.logVerbosity ∧
      positive "tsserver.request_timeout_ms"
        (Settings.getD "request_timeout_ms" (.int default.timeout) server) = .ok c.timeout ∧
      nonNegative "diagnostics.delay_ms"
        (Settings.getD "delay_ms" (.int default.delay) diagnostics) = .ok c.delay := by
  simp only [ofSections, bind_eq_ok]
  constructor
  · rintro ⟨categories, h₁, changeSync, h₂, arguments, h₃, path, h₄, logFile, h₅, logVerbosity, h₆,
      timeout, h₇, delay, h₈, hc⟩
    cases hc
    exact ⟨h₁, h₂, h₃, ⟨path, h₄, rfl⟩, h₅, h₆, h₇, h₈⟩
  · rintro ⟨h₁, h₂, h₃, ⟨path, h₄, hpath⟩, h₅, h₆, h₇, h₈⟩
    refine ⟨_, h₁, _, h₂, _, h₃, _, h₄, _, h₅, _, h₆, _, h₇, _, h₈, ?_⟩
    rw [← hpath]
    rfl

/-- The path is that of the setting there is for it. -/
theorem path_of_ofSections (h : ofSections server diagnostics documents = .ok c) :
    c.path = (textOf? (Table.get? "path" server)).getD default.path := by
  obtain ⟨-, -, -, ⟨path, hpath, hc⟩, -⟩ := ofSections_eq_ok.mp h
  rw [hc, givenText_eq_ok hpath, Settings.getD]
  cases Table.get? "path" server <;> rfl

end Config

end LanguageRelay
