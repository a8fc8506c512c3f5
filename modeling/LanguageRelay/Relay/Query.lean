import LanguageRelay.Feature.Answers
import LanguageRelay.Feature.Completion
import LanguageRelay.Feature.Signature
import LanguageRelay.Feature.Symbols
import LanguageRelay.Relay.Sessions
/-!
# Queries

A query of the editor is put to the analysis server as one command or, for
formatting, as two. `Query.first` says what is written first, and
`After.proceed` what is made of a response: an answer for the editor, or the
next command.
-/

namespace LanguageRelay

/-- A completion item handed out before: the call that gave it, and its place
in the list. -/
structure ItemRef where
  call : Nat
  index : Nat
deriving DecidableEq, Repr

/-- The completion item a query is about: one the editor sent, or one handed
out before and still in the relay's hands. -/
inductive ItemSource where
  | sent (item : CompletionItem)
  | kept (ref : ItemRef)

/-- A query of the editor that is put to the analysis server. -/
inductive Query where
  /-- Introduces the relay to a fresh analysis server. -/
  | introduction
  /-- Any command, with a window of its own if one is given. -/
  | command (name : String) (arguments : Json) (window : Option Duration)
  | completion (uri : String) (position : Position)
  | details (source : ItemSource) (item : CompletionItem)
  | references (uri : String) (position : Position) (includeDeclaration : Bool)
  | symbols (uri : String)
  | signatures (uri : String) (position : Position)
  | formatting (uri : String) (tabSize : Int) (insertSpaces : Bool)
  | hover (uri : String) (position : Position)
  | definition (uri : String) (position : Position)
  | rename (uri : String) (position : Position) (newName : String)

/-- What is to be made of a response. -/
inductive After where
  | nothing
  | raw
  | completion (uri : String) (place : Json)
  | details (source : ItemSource)
  | references (includeDeclaration : Bool)
  | symbols (uri : String)
  | signatures
  | formatOptions (file : String) (text : List Char)
  | formatting
  | hover
  | definition
  | rename (newName : String)

/-- A command to be written, how long its response may take, and what is to
be made of it. -/
structure Ask where
  command : String
  arguments : Json
  window : Option Duration
  after : After

/-- The window of a command in messages: the command has one if it was late. -/
def Ask.shownWindow (a : Ask) : Duration := a.window.getD (.ofMillis 0)

/-- The answer to a query. -/
inductive Answer where
  | nothing
  | raw (body : Json)
  | completions (items : List CompletionItem)
  /-- The details of an item: they go into the item they were asked for. -/
  | details (source : ItemSource) (body : Json)
  | item (item : CompletionItem)
  | locations (ls : List Location)
  | symbols (ss : List SymbolInfo)
  | signatures (help : Option SignatureHelp)
  | edits (es : List TextEdit)
  | hover (h : Option Hover)
  | workspace (e : WorkspaceEdit)

/-- What comes of a response: an answer, or another command. -/
inductive Progress where
  | finished (outcome : Except Failure Answer)
  | ask (a : Ask)

namespace Query

/-- How the relay introduces itself. -/
def introductionArguments : Json :=
  .obj [("hostInfo", .str "tsbridge"),
    ("preferences", .obj [("includeCompletionsWithInsertText", .bool true),
      ("providePrefixAndSuffixTextForRename", .bool true),
      ("allowRenameOfImportPath", .bool true)])]

/-- The command about a place in an open document. -/
def atPlace (r : Relay) (uri operation : String) (p : Position) (command : String)
    (more : Fields) (after : After) : Except Failure Ask := do
  let s ← r.require uri operation
  return ⟨command, .obj (Service.fileFields s.file p ++ more), r.setup.window, after⟩

/-- The word to be completed, if there is one. -/
def wordField (word : List Char) : Fields :=
  if word.isEmpty then [] else [("prefix", .str (String.ofList word))]

/-- The command for completions: it names the place and the word before it. -/
def completionAsk (r : Relay) (uri : String) (p : Position) : Except Failure Ask := do
  let s ← r.require uri "completion"
  let place : Json := .obj (Service.fileFields s.file p ++ wordField (wordBefore s.text p))
  return ⟨Service.completionsName, place, r.setup.window, .completion s.uri place⟩

/-- The options for formatting a text. -/
def formatOptions (tabSize : Int) (insertSpaces : Bool) (text : List Char) : Json :=
  .obj [("tabSize", .int tabSize), ("indentSize", .int tabSize),
    ("convertTabsToSpaces", .bool insertSpaces), ("newLineCharacter", .str (TextEdit.lineEnd text))]

/-- The command that sets the options before a document is formatted. -/
def formatAsk (r : Relay) (uri : String) (tabSize : Int) (insertSpaces : Bool) :
    Except Failure Ask := do
  let s ← r.require uri "formatting"
  return ⟨Service.configureName,
    .obj [("file", .str s.file), ("formatOptions", formatOptions tabSize insertSpaces s.text)],
    r.setup.window, .formatOptions s.file s.text⟩

/-- The command for the details of a completion item. -/
def detailsAsk (r : Relay) (source : ItemSource) (item : CompletionItem) :
    Except Failure Ask := do
  let handle ← item.handle
  let _ ← r.require handle.uri "completion resolve"
  return ⟨Service.completionDetailsName, CompletionItem.detailArguments handle, r.setup.window,
    .details source⟩

/-- The first command of a query. -/
def first (r : Relay) : Query → Except Failure Ask
  | introduction =>
    .ok ⟨Service.configureName, introductionArguments, r.setup.window, .nothing⟩
  | command name arguments window =>
    .ok ⟨name, arguments, window.or r.setup.window, .raw⟩
  | completion uri p => completionAsk r uri p
  | details source item => detailsAsk r source item
  | references uri p includeDeclaration =>
    atPlace r uri "references" p Service.referencesName [] (.references includeDeclaration)
  | symbols uri => do
    let s ← r.require uri "document symbol"
    return ⟨Service.navigationTreeName, Service.fileArgument s.file, r.setup.window,
      .symbols s.uri⟩
  | signatures uri p => atPlace r uri "signature help" p Service.signatureHelpName [] .signatures
  | formatting uri tabSize insertSpaces => formatAsk r uri tabSize insertSpaces
  | hover uri p => atPlace r uri "hover" p Service.quickInfoName [] .hover
  | definition uri p => atPlace r uri "definition" p Service.definitionName [] .definition
  | rename uri p newName =>
    atPlace r uri "rename" p Service.renameName
      [("findInComments", .bool false), ("findInStrings", .bool false)] (.rename newName)

end Query

namespace After

/-- What the analysis server says when there is nothing to show. -/
def noContent : String := "No content available."

/-- A failure that only says there is nothing to show counts as no answer. -/
def orNothing (otherwise : Answer) : Failure → Except Failure Answer
  | .analysis command message =>
    if message == noContent then .ok otherwise else .error (.analysis command message)
  | e => .error e

/-- The command that formats the text the options were set for. -/
def formatAll (window : Option Duration) (file : String) (text : List Char) : Ask :=
  let stop := documentEnd text
  ⟨Service.formatName,
    .obj [("file", .str file), ("line", .int 1), ("offset", .int 1),
      ("endLine", .int (stop.line + 1)), ("endOffset", .int (stop.character + 1))],
    window, .formatting⟩

/-- What is made of the body of a response. -/
def answer (window : Option Duration) (after : After) (body : Json) : Progress :=
  match after with
  | nothing => .finished (.ok .nothing)
  | raw => .finished (.ok (.raw body))
  | completion uri place =>
    .finished ((CompletionItem.ofEntries uri place body.items).map .completions)
  | details source => .finished (.ok (.details source body))
  | references includeDeclaration =>
    .finished ((Location.references includeDeclaration body).map .locations)
  | symbols uri => .finished ((SymbolInfo.ofForest uri none [body]).map .symbols)
  | signatures => .finished ((SignatureHelp.ofBody body).map .signatures)
  | formatOptions file text => .ask (formatAll window file text)
  | formatting => .finished ((TextEdit.ofBody body).map .edits)
  | hover => .finished ((Hover.ofBody body).map .hover)
  | definition => .finished ((Location.definitions body).map .locations)
  | rename newName =>
    .finished ((WorkspaceEdit.ofBody Service.renameName newName body).map .workspace)

/-- What is made of the outcome of a command. -/
def proceed (window : Option Duration) (after : After) (outcome : Except Failure Json) : Progress :=
  match outcome with
  | .ok body => after.answer window body
  | .error e =>
    match after with
    | signatures => .finished (orNothing (.signatures none) e)
    | hover => .finished (orNothing (.hover none) e)
    | _ => .finished (.error e)

end After

namespace Answer

/-- A value, or null where there is none. -/
def orNull (v : Option Json) : Json := v.getD .null

/-- The answer as editors receive it. -/
def toJson : Answer → Json
  | nothing => .null
  | raw body => body
  | completions items =>
    .obj [("isIncomplete", .bool false), ("items", .arr (items.map CompletionItem.toJson))]
  | details _ _ => .null
  | item i => i.toJson
  | locations ls => .arr (ls.map Location.toJson)
  | symbols ss => .arr (ss.map SymbolInfo.toJson)
  | signatures help => orNull (help.map SignatureHelp.toJson)
  | edits es => .arr (es.map TextEdit.toJson)
  | hover h => orNull (h.map Hover.toJson)
  | workspace e => e.toJson

end Answer

end LanguageRelay
