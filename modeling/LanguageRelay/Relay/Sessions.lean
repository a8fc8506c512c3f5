import LanguageRelay.Relay.Checks
/-!
# Sessions

The analysis server holds a copy of each open document: it is opened there
with its whole text, then changed by ranges, then closed. The text is kept,
so that the replacement of a whole document can be written as a change of
the range it covers.
-/

namespace LanguageRelay

namespace Relay

/-- The kind of script a language is written in. -/
def scriptKind (languageId : String) : String :=
  (Table.get? languageId
    [("typescript", "TS"), ("typescriptreact", "TSX"), ("javascript", "JS"),
      ("javascriptreact", "JSX")]).getD "TS"

/-- The session of a document that an operation needs to be open. -/
def require (uri operation : String) (r : Relay) : Except Failure Session :=
  match r.session? uri with
  | some s => .ok s
  | none => .error (.invalidState (.notOpen operation uri))

/-- The project root, if one is set. -/
def rootField (root : Option String) : Fields :=
  match root with
  | some path => if path.isEmpty then [] else [("projectRootPath", .str path)]
  | none => []

/-- The arguments that make a document known. -/
def openArguments (root : Option String) (file languageId content : String) : Json :=
  .obj ([("file", .str file), ("fileContent", .str content),
    ("scriptKindName", .str (scriptKind languageId))] ++ rootField root)

/-- Sets the session of a document. -/
def setSession (s : Session) (r : Relay) : Relay :=
  { r with sessions := Table.put s.uri s r.sessions }

/-- Opens a document. One that is open already gets a new session; for its
checks that is a change. -/
def openDocument (uri languageId : String) (version : Int) (content : String) (r : Relay) :
    Relay × Option Failure :=
  let reopened := (r.session? uri).isSome
  let r :=
    if reopened then r.log .info ("re-opening " ++ uri ++ "; previous session replaced") else r
  match Uri.fileOf? uri with
  | none => (r, some (.value .badValue))
  | some file =>
    let r := r.setSession ⟨uri, file, languageId, version, content.toList⟩
    match r.notify Service.openName (openArguments r.setup.root file languageId content) with
    | (r, .error e) => (r, some e)
    | (r, .ok _) => if reopened then r.invalidate uri else (r, none)

/-- The arguments of a change of a range. -/
def changeArguments (file : String) (range : Range) (text : String) : Json :=
  .obj [("file", .str file), ("line", .int (range.start.line + 1)),
    ("offset", .int (range.start.character + 1)), ("endLine", .int (range.stop.line + 1)),
    ("endOffset", .int (range.stop.character + 1)), ("insertString", .str text)]

/-- Writes a change of a range of a file. -/
def sendChange (file : String) (range : Range) (text : String) (r : Relay) :
    Relay × Option Failure :=
  match r.notify Service.changeName (changeArguments file range text) with
  | (r, .error e) => (r, some e)
  | (r, .ok _) => (r, none)

/-- Makes changes one after another, each written as it is made. A change of
the whole text is written as one of the range the text covers. -/
def changeEach (s : Session) : List TextChange → Relay → Relay × Option Failure
  | [], r => (r, none)
  | change :: rest, r =>
    let (text, shown) := change.apply s.text
    let range := shown.getD (wholeRange s.text)
    let s := { s with text }
    match (r.setSession s).sendChange s.file range change.text with
    | (r, some e) => (r, some e)
    | (r, none) => changeEach s rest r

/-- The text after changes made one after another. -/
def textAfter (text : List Char) (changes : List TextChange) : List Char :=
  changes.foldl (fun t change => (change.apply t).1) text

/-- Makes all changes, then writes one replacement of the whole text. -/
def changeWhole (s : Session) (changes : List TextChange) (r : Relay) : Relay × Option Failure :=
  let range := wholeRange s.text
  let s := { s with text := textAfter s.text changes }
  (r.setSession s).sendChange s.file range (String.ofList s.text)

/-- Changes a document. Its checks are told in any case; a failure of theirs
comes before one of the changes. -/
def changeDocument (uri : String) (version : Int) (changes : List TextChange) (r : Relay) :
    Relay × Option Failure :=
  match r.require uri "change" with
  | .error e => (r, some e)
  | .ok s =>
    let r :=
      if version ≤ s.version then
        r.log .warning
          (uri ++ " version went from " ++ intText s.version ++ " to " ++ intText version)
      else r
    let s := { s with version }
    let r := r.setSession s
    let (r, failure) := if r.setup.fullSync then r.changeWhole s changes else r.changeEach s changes
    match r.invalidate uri with
    | (r, some e) => (r, some e)
    | (r, none) => (r, failure)

/-- Closes a document. -/
def closeDocument (uri : String) (r : Relay) : Relay × Option Failure :=
  match r.require uri "close" with
  | .error e => (r, some e)
  | .ok s =>
    let r := { r with sessions := Table.erase uri r.sessions }.forget uri
    match r.notify Service.closeName (Service.fileArgument s.file) with
    | (r, .error e) => (r, some e)
    | (r, .ok _) => (r, none)

/-! ## What the editor announces -/

/-- Schedules a check where opening and changing do so. -/
def autoSchedule (uri : String) : Relay × Option Failure → Relay × Option Failure
  | (r, some e) => (r, some e)
  | (r, none) => (if r.setup.autoCheck then r.schedule uri else r, none)

/-- The editor opened a document. -/
def didOpen (uri languageId : String) (version : Int) (text : String) (r : Relay) :
    Relay × Option Failure :=
  autoSchedule uri (r.openDocument uri languageId version text)

/-- The editor changed a document. -/
def didChange (uri : String) (version : Int) (changes : List TextChange) (r : Relay) :
    Relay × Option Failure :=
  autoSchedule uri (r.changeDocument uri version changes)

/-- The editor closed a document: what it shows for it is cleared. -/
def didClose (uri : String) (r : Relay) : Relay × Option Failure :=
  match r.closeDocument uri with
  | (r, some e) => (r, some e)
  | (r, none) => (r.emit (.published uri [] none), none)

/-- The relay is to end: the analysis server is asked to exit, unless the
connection is closed. -/
def shutdown (r : Relay) : Relay × Option Failure :=
  if r.link.closed.isSome then (r, none)
  else
    match r.notify Service.exitName .null with
    | (r, .error e) => (r, some e)
    | (r, .ok _) => (r, none)

end Relay

end LanguageRelay
