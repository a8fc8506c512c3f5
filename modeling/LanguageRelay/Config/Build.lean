import LanguageRelay.Config.Basic
import LanguageRelay.Text.Casing
import LanguageRelay.Text.Utf8
import LanguageRelay.Toml.Document
/-!
# Building a configuration

A configuration is put together from layers: a file, the environment, and
overrides, each above the one before. Sections and names nobody knows are
passed over; a value that makes no sense is a fault.
-/

namespace LanguageRelay

/-- What is wrong with the values of a configuration. -/
inductive ConfigFault where
  | notInteger (name : String) (value : Setting)
  | notPositive (name : String) (value : Int)
  | unknownCategories (names : List String)
  | unknownChangeSync (text : String)
  | argumentsNoList (value : Setting)
  /-- An infinite number where an integer is needed. -/
  | infinite
  /-- An integer that has too many digits to be written, where a text is
  needed. -/
  | tooManyDigits

namespace ConfigFault

/-- The wording of a fault, where it has one. -/
def message? : ConfigFault → Option String
  | notInteger name value => some (name ++ " must be an integer, got " ++ value.literal)
  | notPositive name value =>
    some (name ++ " must be positive, got " ++ String.ofList (Numeral.showInt value))
  | unknownCategories names =>
    some ("unknown diagnostic categories: " ++ ", ".intercalate names)
  | unknownChangeSync text =>
    some ("change_sync must be one of ('incremental', 'full'), got " ++ quoted text)
  | argumentsNoList value => some ("tsserver.args must be a list, got " ++ value.literal)
  | infinite => none
  | tooManyDigits => none

/-- A fault whose wording shows a setting, or the integer it stands for: there
is no such wording if the setting cannot be written. -/
def showing (value : Setting) (fault : ConfigFault) : ConfigFault :=
  if value.isWritable then fault else tooManyDigits

end ConfigFault

namespace Config

/-! ## The file -/

/-- Why the file is not read. -/
inductive FileFault where
  /-- It is no text in UTF-8. -/
  | notText
  /-- It holds a number with more digits than are read. -/
  | tooManyDigits
deriving DecidableEq, Repr

/-- The name of the file where none is given. -/
def defaultFile : String := "tsbridge.toml"

/-- Every end of a line as a line feed. -/
def plainLineEnds : List Char → List Char
  | [] => []
  | '\r' :: '\n' :: rest => '\n' :: plainLineEnds rest
  | '\r' :: rest => '\n' :: plainLineEnds rest
  | c :: rest => c :: plainLineEnds rest

/-- The settings in a file: none if there is no file, or if its text is not
as it should be. -/
def load (file : Option (List UInt8)) : Except FileFault Settings :=
  match file with
  | none => .ok []
  | some bytes =>
    match Utf8.decode? bytes with
    | none => .error .notText
    | some text =>
      match Toml.read (plainLineEnds text) with
      | .ok settings => .ok settings
      | .error .malformed => .ok []
      | .error .tooManyDigits => .error .tooManyDigits

/-! ## Values -/

/-- An integer above zero. -/
def positive (name : String) (value : Setting) : Except ConfigFault Int :=
  match value with
  | .bool b => .error (.notInteger name (.bool b))
  | v =>
    match v.toInteger with
    | .error .infinite => .error .infinite
    | .error _ => .error (.showing v (.notInteger name v))
    | .ok n => if n ≤ 0 then .error (.showing v (.notPositive name n)) else .ok n

/-- The setting is the number zero, or its numeral. -/
def isZero : Setting → Bool
  | .int n => n == 0
  | .float x => x.isZero
  | .str s => s == "0"
  | _ => false

/-- An integer not below zero. -/
def nonNegative (name : String) (value : Setting) : Except ConfigFault Int :=
  if isZero value then .ok 0 else positive name value

/-- The names in a text with commas between them. -/
def splitNames (text : String) : List String :=
  ((splitAll (· == ',') text.toList).map trim).filterMap fun name =>
    if name.isEmpty then none else some (String.ofList name)

/-- The names a setting lists: in one text, or in several. -/
def nameList : Setting → List String
  | .str s => splitNames s
  | .list items =>
    items.flatMap fun
      | .str s => splitNames s
      | _ => []
  | _ => []

/-- The categories of diagnostics; all there are if none is named. -/
def categoriesOf (value : Setting) : Except ConfigFault (List String) :=
  let names := nameList value
  if names.isEmpty then .ok knownCategories
  else
    let unknown := names.filter fun name => !knownCategories.contains name
    if unknown.isEmpty then .ok names else .error (.unknownCategories unknown)

/-- The text of a setting, if it can be written. -/
def writtenText (value : Setting) : Except ConfigFault String :=
  if value.isWritable then .ok value.text else .error .tooManyDigits

/-- The way to pass on changes that a word names. -/
def changeSyncNamed (word : String) : Except ConfigFault ChangeSync :=
  if word = "incremental" then .ok .incremental
  else if word = "full" then .ok .full
  else .error (.unknownChangeSync word)

/-- How changes are passed on. -/
def changeSyncOf (value : Setting) : Except ConfigFault ChangeSync := do
  let text ← writtenText value
  changeSyncNamed (String.ofList (lowercase (trim text.toList)))

/-- The arguments of the analysis server: the words of a text, or a list. -/
def argumentsOf (value : Setting) : Except ConfigFault (List String) :=
  match value with
  | .str s => .ok ((splitBlanks s.toList).map String.ofList)
  | .list items => items.mapM writtenText
  | v => .error (.showing v (.argumentsNoList v))

/-- The text of a setting that is given. -/
def givenText (value : Setting) : Except ConfigFault (Option String) :=
  if value.isTruthy then (writtenText value).map some else .ok none

/-! ## Layers -/

/-- The variable that gives the path of the analysis server. -/
def pathVariable : String := "TSBRIDGE_TSSERVER_PATH"

/-- The variable that gives the time a response may take. -/
def timeoutVariable : String := "TSBRIDGE_TIMEOUT_MS"

/-- The text of a variable without blanks around it. -/
def variableText (name : String) (env : List (String × String)) : String :=
  String.ofList (trim ((Table.get? name env).getD "").toList)

/-- What the environment sets; a blank variable sets nothing. -/
def fromEnvironment (env : List (String × String)) : Except ConfigFault Settings := do
  let path := variableText pathVariable env
  let timeout := variableText timeoutVariable env
  let paths : Settings := if path.isEmpty then [] else [("path", .str path)]
  if timeout.isEmpty then return paths
  let n ← positive timeoutVariable (.str timeout)
  return paths ++ [("request_timeout_ms", .int n)]

/-- The configuration that the settings of the three sections make. -/
def ofSections (server diagnostics documents : Settings) : Except ConfigFault Config := do
  let categories ← categoriesOf (Settings.getD "categories" .null diagnostics)
  let changeSync ← changeSyncOf (Settings.getD "change_sync" (.str "incremental") documents)
  let arguments ← argumentsOf (Settings.getD "args" (.list []) server)
  let path ← givenText (Settings.getD "path" .null server)
  let logFile ← givenText (Settings.getD "log_file" .null server)
  let logVerbosity ← givenText (Settings.getD "log_verbosity" .null server)
  let timeout ← positive "tsserver.request_timeout_ms"
    (Settings.getD "request_timeout_ms" (.int default.timeout) server)
  let delay ← nonNegative "diagnostics.delay_ms"
    (Settings.getD "delay_ms" (.int default.delay) diagnostics)
  return {
    path := path.getD default.path
    arguments, logFile, logVerbosity, timeout, categories, delay, changeSync }

/-- The configuration of the settings in a file, under an environment and
overrides. -/
def build (file : Settings) (env : List (String × String)) (overrides : Settings) :
    Except ConfigFault Config := do
  let fromEnv ← fromEnvironment env
  ofSections
    (Settings.overlay overrides (Settings.overlay fromEnv (Settings.sectionOf "tsserver" file)))
    (Settings.sectionOf "diagnostics" file) (Settings.sectionOf "documents" file)

end Config

end LanguageRelay
