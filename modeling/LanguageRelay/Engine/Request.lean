import LanguageRelay.Engine.Basic
/-!
# Requests

What the requests and notifications of an editor call for.
-/

namespace LanguageRelay

/-- The document that a request for diagnostics names, if it names one. -/
def requestedUri (params : Json) : Option String :=
  (params.get "uri").str?.filter fun uri => !uri.isEmpty

namespace Handler

/-- The document a request is about. -/
def documentOf (params : Json) : Json := params.get "textDocument"

/-- The URI of the document a request is about. -/
def uriOf (params : Json) : Option String := ((documentOf params).get "uri").str?

/-- A query about a place in a document. -/
def atPlace (params : Json) (q : String → Position → Query) : Option Handler := do
  let uri ← uriOf params
  let position ← Position.ofJson? (params.get "position")
  return .query (q uri position)

/-- The notification that a document was opened. -/
def ofOpening (params : Json) : Option Handler := do
  let document := documentOf params
  let uri ← uriOf params
  let languageId ← (document.get "languageId").str?
  let version ← (document.get "version").exactInteger?
  let text ← (document.get "text").str?
  return .didOpen uri languageId version text

/-- The notification that a document was changed. -/
def ofChange (params : Json) : Option Handler := do
  let uri ← uriOf params
  let version ← ((documentOf params).get "version").exactInteger?
  let changes ← (params.get "contentChanges").items.mapM TextChange.ofJson?
  return .didChange uri version changes

/-- The request to format a document. -/
def ofFormatting (params : Json) : Option Handler := do
  let uri ← uriOf params
  let options := params.get "options"
  let tabSize ← (options.get "tabSize").exactInteger?
  return .query (.formatting uri tabSize (options.get "insertSpaces").isTruthy)

/-- The request to rename a symbol. -/
def ofRename (params : Json) : Option Handler := do
  let newName ← (params.get "newName").str?
  atPlace params fun uri position => .rename uri position newName

/-- The request for the details of a completion item. -/
def ofResolve (params : Json) : Option Handler := do
  let item ← CompletionItem.ofJson? params
  return .query (.details (.sent item) item)

/-- What a method is called for with the given parameters. -/
def ofRequest? (method : String) (params : Json) : Option Handler :=
  match method with
  | "initialized" => some .initialized
  | "shutdown" => some .shutdown
  | "textDocument/didOpen" => ofOpening params
  | "textDocument/didChange" => ofChange params
  | "textDocument/didClose" => (uriOf params).map .didClose
  | "textDocument/completion" => atPlace params .completion
  | "completionItem/resolve" => ofResolve params
  | "textDocument/references" =>
    atPlace params fun uri position =>
      .references uri position ((params.get "context").get "includeDeclaration").isTruthy
  | "textDocument/documentSymbol" => (uriOf params).map fun uri => .query (.symbols uri)
  | "textDocument/signatureHelp" => atPlace params .signatures
  | "textDocument/formatting" => ofFormatting params
  | "textDocument/hover" => atPlace params .hover
  | "textDocument/definition" => atPlace params .definition
  | "textDocument/rename" => ofRename params
  | "tsbridge/requestDiagnostics" => some (.diagnostics (requestedUri params))
  | _ => none

end Handler

end LanguageRelay
