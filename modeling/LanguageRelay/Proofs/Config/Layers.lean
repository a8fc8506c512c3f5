import LanguageRelay.Proofs.Config.Values
import LanguageRelay.Proofs.Table
/-!
# Layers of settings

A setting is looked up in the overrides first, then in the environment, then
in the file, and the first of them that gives it counts (`setting?`,
`get?_overlay`). So what a lower layer says of it does not matter, not even
if it makes no sense (`build_layers`).

There is one exception, and it is no value of the file: the environment is read
before the layers are put together, so a time limit that is no number is a
fault there even where the overrides give one.
-/

namespace LanguageRelay

namespace Settings

variable {name : String} {upper middle lower : Settings}

/-- The setting a layer gives; null gives nothing. -/
def setting? (name : String) (t : Settings) : Option Setting :=
  match Table.get? name t with
  | some .null => none
  | found => found

theorem setting?_of_get? (h : Table.get? name upper ≠ some .null) :
    setting? name upper = Table.get? name upper := by
  unfold setting?
  split
  · rename_i hnull
    exact absurd hnull h
  · rfl

theorem setting?_of_null (h : Table.get? name upper = some .null) : setting? name upper = none := by
  rw [setting?, h]

/-- One more setting on top. -/
theorem overlay_cons (key : String) (v : Setting) (rest lower : Settings) :
    overlay ((key, v) :: rest) lower =
      overlay rest (match v with
        | .null => lower
        | v => Table.put key v lower) := rfl

/-- **What the upper layer gives is found, and below it the lower one.** -/
theorem get?_overlay (h : (Table.keys upper).Nodup) :
    Table.get? name (overlay upper lower) = (setting? name upper).or (Table.get? name lower) := by
  induction upper generalizing lower with
  | nil => rfl
  | cons entry rest ih =>
    obtain ⟨key, v⟩ := entry
    rw [Table.keys, List.map_cons, List.nodup_cons] at h
    rw [overlay_cons, ih h.2]
    by_cases hkey : key = name
    · subst hkey
      have hrest : setting? key rest = none := by
        have hnone : Table.get? key rest = none := by
          rw [← Option.not_isSome_iff_eq_none, ← Table.mem_keys_iff]
          exact h.1
        rw [setting?_of_get? (by simp [hnone]), hnone]
      rw [hrest, Option.none_or]
      cases v <;> simp [setting?, Table.get?, Table.get?_put]
    · have hsame : setting? name ((key, v) :: rest) = setting? name rest := by
        simp only [setting?, Table.get?, if_neg hkey]
      rw [hsame]
      cases v <;> simp only [Table.get?_put, if_neg hkey]

theorem nodup_keys_overlay (h : (Table.keys lower).Nodup) :
    (Table.keys (overlay upper lower)).Nodup := by
  induction upper generalizing lower with
  | nil => exact h
  | cons entry rest ih =>
    obtain ⟨key, v⟩ := entry
    rw [overlay_cons]
    cases v <;> first | exact ih h | exact ih (Table.nodup_keys_put h)

/-- What two layers together give. -/
theorem setting?_overlay (h : (Table.keys upper).Nodup) :
    setting? name (overlay upper lower) = (setting? name upper).or (setting? name lower) := by
  cases hgiven : setting? name upper with
  | some v =>
    have hv : Table.get? name (overlay upper lower) = some v := by
      rw [get?_overlay h, hgiven, Option.some_or]
    have hsolid : v ≠ .null := fun hnull => by
      unfold setting? at hgiven
      split at hgiven <;> simp_all
    rw [setting?_of_get? (by simp [hv, hsolid]), hv, Option.some_or]
  | none =>
    have hv : Table.get? name (overlay upper lower) = Table.get? name lower := by
      rw [get?_overlay h, hgiven, Option.none_or]
    rw [setting?, hv, Option.none_or, setting?]

/-- **It does not matter which two of three layers are put together first.** -/
theorem get?_overlay_assoc (hupper : (Table.keys upper).Nodup)
    (hmiddle : (Table.keys middle).Nodup) :
    Table.get? name (overlay upper (overlay middle lower)) =
      Table.get? name (overlay (overlay upper middle) lower) := by
  rw [get?_overlay hupper, get?_overlay hmiddle, get?_overlay (nodup_keys_overlay hmiddle),
    setting?_overlay hupper, Option.or_assoc]

end Settings

namespace Config

open Settings

variable {file : Settings} {env : List (String × String)} {overrides server : Settings}
variable {name : String} {c : Config}

/-! ## The environment -/

/-- The setting a variable gives; a blank one gives nothing. -/
def fromVariable? (name : String) (env : List (String × String)) : Option Setting :=
  if (variableText name env).isEmpty then none else some (.str (variableText name env))

/-- The setting the environment gives under a name. -/
def environment? (name : String) (env : List (String × String)) : Option Setting :=
  if name = "path" then fromVariable? pathVariable env
  else if name = "request_timeout_ms" then fromVariable? timeoutVariable env
  else none

/-- Reading the environment fails at most for the time limit. -/
theorem fromEnvironment_eq (env : List (String × String)) :
    fromEnvironment env =
      match fromVariable? timeoutVariable env with
      | none => .ok (((fromVariable? pathVariable env).map (("path", ·))).toList)
      | some text =>
        (positive timeoutVariable text).map fun n =>
          ((fromVariable? pathVariable env).map (("path", ·))).toList ++
            [("request_timeout_ms", .int n)] := by
  have hpath : (if (variableText pathVariable env).isEmpty then []
      else [("path", Setting.str (variableText pathVariable env))]) =
      ((fromVariable? pathVariable env).map (("path", ·))).toList := by
    unfold fromVariable?
    split <;> rfl
  simp only [fromEnvironment, hpath]
  generalize (((fromVariable? pathVariable env).map (("path", ·))).toList : Settings) = paths
  unfold fromVariable?
  cases (variableText timeoutVariable env).isEmpty with
  | true => rfl
  | false =>
    simp only [Bool.false_eq_true, if_false]
    cases positive timeoutVariable (.str (variableText timeoutVariable env)) <;> rfl

/-- What is read from the environment: of a time limit the integer, of
anything else the setting that is given. -/
theorem get?_fromEnvironment {t : Settings} (h : fromEnvironment env = .ok t) (name : String) :
    (Table.get? name t = environment? name env ∧
      (name = "request_timeout_ms" → environment? name env = none)) ∨
      ∃ text n, name = "request_timeout_ms" ∧ environment? name env = some text ∧
        Counts text n ∧ Table.get? name t = some (.int n) := by
  rw [fromEnvironment_eq] at h
  unfold environment?
  generalize fromVariable? pathVariable env = path at h ⊢
  split at h
  case h_1 hnone =>
    cases h
    rw [hnone]
    refine .inl ⟨?_, fun hname => by simp [hname]⟩
    cases path <;> by_cases hname : name = "path" <;> simp [Table.get?, hname, eq_comm]
  case h_2 text htext =>
    obtain ⟨n, hn, rfl⟩ := map_eq_ok.mp h
    by_cases hname : name = "request_timeout_ms"
    · subst hname
      refine .inr ⟨text, n, rfl, by simpa using htext, positive_eq_ok.mp hn, ?_⟩
      cases path <;> simp [Table.get?]
    · refine .inl ⟨?_, fun htimeout => absurd htimeout hname⟩
      cases path <;> by_cases hpath : name = "path" <;>
        simp [Table.get?, hname, hpath, Ne.symm hname, eq_comm]

theorem nodup_fromEnvironment {t : Settings} (h : fromEnvironment env = .ok t) :
    (Table.keys t).Nodup := by
  rw [fromEnvironment_eq] at h
  generalize fromVariable? pathVariable env = path at h
  split at h
  case h_1 =>
    cases h
    cases path <;> simp [Table.keys]
  case h_2 =>
    obtain ⟨n, -, rfl⟩ := map_eq_ok.mp h
    cases path <;> simp [Table.keys]

/-- Nothing that is read from the environment is null. -/
theorem setting?_fromEnvironment {t : Settings} (h : fromEnvironment env = .ok t) (name : String) :
    setting? name t = Table.get? name t := by
  refine setting?_of_get? fun hnull => ?_
  rcases get?_fromEnvironment h name with ⟨hsame, -⟩ | ⟨text, n, -, -, -, hn⟩
  · rw [hsame] at hnull
    unfold environment? fromVariable? at hnull
    grind
  · rw [hn] at hnull
    cases hnull

/-! ## Layers -/

/-- **The setting under a name**: that of the overrides, else of the
environment, else of the file. -/
def layered? (name : String) (file : Settings) (env : List (String × String))
    (overrides : Settings) : Option Setting :=
  ((setting? name overrides).or (environment? name env)).or
    (Table.get? name (sectionOf "tsserver" file))

/-- A name that is given above the file. -/
def Shadowed (name : String) (env : List (String × String)) (overrides : Settings) : Prop :=
  (setting? name overrides).or (environment? name env) ≠ none

/-- The settings of the analysis server. -/
def serverSettings (fromEnv file overrides : Settings) : Settings :=
  overlay overrides (overlay fromEnv (sectionOf "tsserver" file))

theorem build_eq (file : Settings) (env : List (String × String)) (overrides : Settings) :
    build file env overrides =
      fromEnvironment env >>= fun fromEnv =>
        ofSections (serverSettings fromEnv file overrides) (sectionOf "diagnostics" file)
          (sectionOf "documents" file) := rfl

theorem get?_serverSettings {fromEnv : Settings} (hover : (Table.keys overrides).Nodup)
    (henv : fromEnvironment env = .ok fromEnv) (name : String) :
    Table.get? name (serverSettings fromEnv file overrides) =
      (setting? name overrides).or
        ((Table.get? name fromEnv).or (Table.get? name (sectionOf "tsserver" file))) := by
  rw [serverSettings, get?_overlay hover, get?_overlay (nodup_fromEnvironment henv),
    setting?_fromEnvironment henv]

/-- Settings are only looked up. -/
theorem ofSections_congr {server' diagnostics documents : Settings}
    (h : ∀ name, Table.get? name server = Table.get? name server') :
    ofSections server diagnostics documents = ofSections server' diagnostics documents := by
  have hgetD : ∀ name otherwise, getD name otherwise server = getD name otherwise server' :=
    fun name otherwise => by rw [getD, h, getD]
  simp only [ofSections, hgetD]

/-- The setting of the first layer that gives one is found, unless it is a time
limit of the environment, which is found as the integer it stands for. -/
theorem layered_serverSettings {fromEnv : Settings} (hover : (Table.keys overrides).Nodup)
    (henv : fromEnvironment env = .ok fromEnv) (name : String) :
    Table.get? name (serverSettings fromEnv file overrides) = layered? name file env overrides ∨
      ∃ text n, name = "request_timeout_ms" ∧ layered? name file env overrides = some text ∧
        Counts text n ∧
        Table.get? name (serverSettings fromEnv file overrides) = some (.int n) := by
  rw [get?_serverSettings hover henv, layered?, Option.or_assoc]
  rcases get?_fromEnvironment henv name with ⟨hsame, -⟩ | ⟨text, n, hname, htext, hcounts, hn⟩
  · rw [hsame]
    exact .inl rfl
  · cases hgiven : setting? name overrides with
    | some v => exact .inl rfl
    | none =>
      rw [htext, hn]
      exact .inr ⟨text, n, hname, rfl, hcounts, rfl⟩

/-- Values of the file that are shadowed do not matter. -/
theorem build_of_shadowed {file' : Settings} (hover : (Table.keys overrides).Nodup)
    (hserver : ∀ name, ¬ Shadowed name env overrides →
      Table.get? name (sectionOf "tsserver" file') = Table.get? name (sectionOf "tsserver" file))
    (hdiagnostics : sectionOf "diagnostics" file' = sectionOf "diagnostics" file)
    (hdocuments : sectionOf "documents" file' = sectionOf "documents" file) :
    build file' env overrides = build file env overrides := by
  rw [build_eq, build_eq, hdiagnostics, hdocuments]
  cases henv : fromEnvironment env with
  | error fault => rfl
  | ok fromEnv =>
    refine ofSections_congr fun name => ?_
    rw [get?_serverSettings hover henv, get?_serverSettings hover henv]
    by_cases hshadowed : Shadowed name env overrides
    · cases hgiven : setting? name overrides with
      | some v => rfl
      | none =>
        rcases get?_fromEnvironment henv name with ⟨hsame, -⟩ | ⟨text, n, -, -, -, hn⟩
        · rw [Shadowed, hgiven, Option.none_or, ← hsame] at hshadowed
          obtain ⟨v, hv⟩ := Option.ne_none_iff_exists'.mp hshadowed
          rw [hv]
          rfl
        · rw [hn]
          rfl
    · rw [hserver name hshadowed]

theorem Counts.unique {value : Setting} {n k : Int} (h : Counts value n) (h' : Counts value k) :
    n = k :=
  Except.ok.inj (h.2.1.symm.trans h'.2.1)

/-- Nor do variables that are shadowed, as long as they make sense. -/
theorem build_of_shadowed_variables {env' : List (String × String)} {c' : Config}
    (hover : (Table.keys overrides).Nodup)
    (henv : ∀ name, setting? name overrides = none → environment? name env' = environment? name env)
    (h : build file env overrides = .ok c) (h' : build file env' overrides = .ok c') : c' = c := by
  rw [build_eq] at h h'
  obtain ⟨fromEnv, hread, h⟩ := bind_eq_ok.mp h
  obtain ⟨fromEnv', hread', h'⟩ := bind_eq_ok.mp h'
  refine Except.ok.inj (h'.symm.trans (Eq.trans (ofSections_congr fun name => ?_) h))
  rw [get?_serverSettings hover hread, get?_serverSettings hover hread']
  cases hgiven : setting? name overrides with
  | some v => rfl
  | none =>
    have hsame := henv name hgiven
    -- the same text of a time limit is read as the same integer
    rcases get?_fromEnvironment hread name with
      ⟨hget, hnone⟩ | ⟨text, n, hname, htext, hn, hget⟩ <;>
    rcases get?_fromEnvironment hread' name with
      ⟨hget', hnone'⟩ | ⟨text', n', hname', htext', hn', hget'⟩
    · rw [hget, hget', hsame]
    · simp [hsame, hnone hname'] at htext'
    · simp [← hsame, hnone' hname] at htext
    · obtain rfl : text = text' := by simpa [htext, htext'] using hsame.symm
      rw [hget, hget', hn.unique hn']

/-- The fields that no layer above the file can set come from the file. -/
theorem build_of_sections {file' overrides' : Settings} {env' : List (String × String)}
    {c' : Config} (hdiagnostics : sectionOf "diagnostics" file' = sectionOf "diagnostics" file)
    (hdocuments : sectionOf "documents" file' = sectionOf "documents" file)
    (h : build file env overrides = .ok c) (h' : build file' env' overrides' = .ok c') :
    c'.categories = c.categories ∧ c'.delay = c.delay ∧ c'.changeSync = c.changeSync := by
  rw [build_eq] at h h'
  obtain ⟨fromEnv, -, h⟩ := bind_eq_ok.mp h
  obtain ⟨fromEnv', -, h'⟩ := bind_eq_ok.mp h'
  rw [hdiagnostics, hdocuments] at h'
  obtain ⟨hcategories, hchangeSync, -, -, -, -, -, hdelay⟩ := ofSections_eq_ok.mp h
  obtain ⟨hcategories', hchangeSync', -, -, -, -, -, hdelay'⟩ := ofSections_eq_ok.mp h'
  exact ⟨Except.ok.inj (hcategories'.symm.trans hcategories),
    Except.ok.inj (hdelay'.symm.trans hdelay),
    Except.ok.inj (hchangeSync'.symm.trans hchangeSync)⟩

/-- The path is made of the setting of the first layer that gives one. -/
theorem path_of_build (hover : (Table.keys overrides).Nodup)
    (h : build file env overrides = .ok c) :
    c.path = (textOf? (layered? "path" file env overrides)).getD default.path := by
  rw [build_eq] at h
  obtain ⟨fromEnv, hread, h⟩ := bind_eq_ok.mp h
  rw [path_of_ofSections h]
  rcases layered_serverSettings hover hread "path" with hsame | ⟨-, -, hname, -⟩
  · rw [hsame]
  · simp at hname

/-- So is the time limit. -/
theorem timeout_of_build (hover : (Table.keys overrides).Nodup)
    (h : build file env overrides = .ok c) :
    Counts ((layered? "request_timeout_ms" file env overrides).getD (.int default.timeout))
      c.timeout := by
  rw [build_eq] at h
  obtain ⟨fromEnv, hread, h⟩ := bind_eq_ok.mp h
  obtain ⟨-, -, -, -, -, -, htimeout, -⟩ := ofSections_eq_ok.mp h
  rw [getD, positive_eq_ok] at htimeout
  rcases layered_serverSettings hover hread "request_timeout_ms" with
    hsame | ⟨text, n, -, htext, hcounts, hget⟩
  · rwa [hsame] at htimeout
  · rw [hget, Option.getD_some] at htimeout
    rw [htext, Option.getD_some]
    obtain rfl : n = c.timeout := Except.ok.inj htimeout.2.1
    exact hcounts

/-- **A configuration is made of layers.**

The path and the time limit are those of the first layer that gives them, read
in the same way whichever it is. Values of the file that are given above do not
matter, whatever they are, nor do those of the environment among
configurations that come about; and what concerns diagnostics and documents
comes from the file alone. Putting layers together is associative, and null
never hides a value. -/
theorem build_layers (file : Settings) (env : List (String × String)) (overrides : Settings)
    (c : Config) (hover : (Table.keys overrides).Nodup) (h : build file env overrides = .ok c) :
    c.path = (textOf? (layered? "path" file env overrides)).getD default.path ∧
    positive "tsserver.request_timeout_ms"
      ((layered? "request_timeout_ms" file env overrides).getD (.int default.timeout)) =
        .ok c.timeout ∧
    (∀ file', (∀ name, ¬ Shadowed name env overrides →
        Table.get? name (sectionOf "tsserver" file') =
          Table.get? name (sectionOf "tsserver" file)) →
      sectionOf "diagnostics" file' = sectionOf "diagnostics" file →
      sectionOf "documents" file' = sectionOf "documents" file →
      build file' env overrides = .ok c) ∧
    (∀ env' c', (∀ name, setting? name overrides = none →
        environment? name env' = environment? name env) →
      build file env' overrides = .ok c' → c' = c) ∧
    (∀ file' env' overrides' c', sectionOf "diagnostics" file' = sectionOf "diagnostics" file →
      sectionOf "documents" file' = sectionOf "documents" file →
      build file' env' overrides' = .ok c' →
        c'.categories = c.categories ∧ c'.delay = c.delay ∧ c'.changeSync = c.changeSync) ∧
    ∀ (upper middle lower : Settings), (Table.keys upper).Nodup → (Table.keys middle).Nodup →
      ∀ name, Table.get? name (overlay upper (overlay middle lower)) =
          Table.get? name (overlay (overlay upper middle) lower) ∧
        (Table.get? name upper = some .null →
          Table.get? name (overlay upper lower) = Table.get? name lower) := by
  refine ⟨path_of_build hover h, positive_eq_ok.mpr (timeout_of_build hover h),
    fun file' hserver hdiagnostics hdocuments =>
      (build_of_shadowed hover hserver hdiagnostics hdocuments).trans h,
    fun env' c' henv => build_of_shadowed_variables hover henv h,
    fun file' env' overrides' c' hdiagnostics hdocuments =>
      build_of_sections hdiagnostics hdocuments h,
    fun upper middle lower hupper hmiddle name =>
      ⟨get?_overlay_assoc hupper hmiddle, fun hnull => ?_⟩⟩
  rw [get?_overlay hupper, setting?_of_null hnull, Option.none_or]

/-- A file with a time limit that is no number, under an environment with a
path and overrides with a time limit. -/
def layeredFile (timeout : Setting) : Settings :=
  [("tsserver", .table [("path", .str "/file/tsserver"), ("request_timeout_ms", timeout)]),
    ("diagnostics", .table [("delay_ms", .int 0)])]

/-- The variables. -/
def layeredVariables : List (String × String) := [(pathVariable, " /env/tsserver ")]

/-- The overrides; the path among them is null. -/
def layeredOverrides : Settings := [("path", .null), ("request_timeout_ms", .int 5)]

/-- The configuration of these layers, which the time limit of the file is not
part of. -/
theorem build_layers_shadowed :
    build (layeredFile (.str "soon")) layeredVariables layeredOverrides =
      .ok { default with path := "/env/tsserver", timeout := 5, delay := 0 } ∧
    build (layeredFile (.list [])) layeredVariables layeredOverrides =
      .ok { default with path := "/env/tsserver", timeout := 5, delay := 0 } := by
  have hover : (Table.keys layeredOverrides).Nodup := by decide
  have hbuild : build (layeredFile (.str "soon")) layeredVariables layeredOverrides =
      .ok { default with path := "/env/tsserver", timeout := 5, delay := 0 } := rfl
  have hserver : ∀ name, ¬ Shadowed name layeredVariables layeredOverrides → ∀ timeout,
      Table.get? name (sectionOf "tsserver" (layeredFile timeout)) =
        if "path" = name then some (.str "/file/tsserver") else none := fun name hname timeout => by
    have hother : "request_timeout_ms" ≠ name := by
      rintro rfl
      have hgiven : setting? "request_timeout_ms" layeredOverrides = some (.int 5) := rfl
      refine hname ?_
      rw [Shadowed, hgiven]
      exact Option.some_ne_none _
    change Table.get? name [("path", .str "/file/tsserver"), ("request_timeout_ms", timeout)] = _
    rw [Table.get?]
    split
    · rfl
    · rw [Table.get?, if_neg hother, Table.get?]
  obtain ⟨-, -, hshadowed, -⟩ := build_layers (layeredFile (.str "soon")) layeredVariables
    layeredOverrides _ hover hbuild
  exact ⟨hbuild, hshadowed (layeredFile (.list []))
    (fun name hname => by rw [hserver name hname, hserver name hname]) rfl rfl⟩

end Config

end LanguageRelay
