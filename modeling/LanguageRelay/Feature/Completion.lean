import LanguageRelay.Editor.TextEdit
import LanguageRelay.Feature.Display
import LanguageRelay.Json.Lenient
import LanguageRelay.Service.Location
/-!
# Completion

Each entry of the analysis server becomes an item of the editor. The item
carries a handle, the place that was asked about and the name of the entry,
by which its details can be asked for later.
-/

namespace LanguageRelay

/-- The kinds of completion items in use. -/
inductive CompletionKind where
  | method | function | constructor | field | binding | classType | interface | module | property
  | enum | keyword | file | folder | enumMember | constant | typeParameter
deriving DecidableEq, Repr

namespace CompletionKind

/-- The number editors know a kind by. -/
def code : CompletionKind → Nat
  | method => 2 | function => 3 | constructor => 4 | field => 5 | binding => 6 | classType => 7
  | interface => 8 | module => 9 | property => 10 | enum => 13 | keyword => 14 | file => 17
  | folder => 19 | enumMember => 20 | constant => 21 | typeParameter => 25

/-- The kinds by the words of the analysis server. -/
def table : List (String × CompletionKind) :=
  [("primitive type", keyword), ("keyword", keyword), ("var", binding), ("local var", binding),
   ("let", binding), ("parameter", binding), ("alias", binding), ("const", constant),
   ("property", field), ("getter", property), ("setter", property), ("method", method),
   ("construct", method), ("call", method), ("index", method), ("function", function),
   ("local function", function), ("constructor", constructor), ("class", classType),
   ("local class", classType), ("interface", interface), ("type", classType),
   ("type parameter", typeParameter), ("enum", enum), ("enum member", enumMember),
   ("module", module), ("external module name", module), ("script", file), ("directory", folder),
   ("string", constant)]

/-- The kind of a word; any other word counts as a property. -/
def ofWord (word : String) : CompletionKind := (table.lookup word).getD property

end CompletionKind

/-- What a completion item needs to be resolved later. -/
structure CompletionHandle where
  uri : String
  file : String
  line : Int
  offset : Int
  entryName : String
  source : Option String
deriving DecidableEq, Repr

namespace CompletionHandle

/-- The handle as it travels in an item; a missing source is left out. -/
def toJson (h : CompletionHandle) : Json :=
  .obj ([("uri", .str h.uri), ("file", .str h.file), ("line", .int h.line),
      ("offset", .int h.offset), ("entry_name", .str h.entryName)]
    ++ Json.field? "source" (h.source.map .str))

/-- Reads a handle back. -/
def ofJson? (v : Json) : Option CompletionHandle :=
  match v with
  | .obj _ => do
    let uri ← v.required Json.str? "uri"
    let file ← v.required Json.str? "file"
    let line ← v.required Json.lenientInt? "line"
    let offset ← v.required Json.lenientInt? "offset"
    let entryName ← v.required Json.str? "entry_name"
    let source ← v.optional Json.str? "source"
    return ⟨uri, file, line, offset, entryName, source⟩
  | _ => none

end CompletionHandle

/-- A completion item. `others` are fields that came from the editor and go
back to it unread. -/
structure CompletionItem where
  label : String
  kind : Option CompletionKind
  deprecated : Bool
  detail : Option String
  documentation : Option Markdown
  sortText : Option String
  insertText : Option String
  textEdit : Option TextEdit
  data : Option Json
  others : Fields

namespace CompletionItem

/-- An item as an editor sends it back. -/
def ofEditor (label : String) (detail : Option String) (data : Option Json) (others : Fields) :
    CompletionItem :=
  { label, kind := none, deprecated := false, detail, documentation := none, sortText := none
    insertText := none, textEdit := none, data, others }

/-- The fields of an item that are read; the others are only kept. -/
def readFields : List String := ["label", "detail", "data"]

/-- The item an editor sends. -/
def ofJson? (v : Json) : Option CompletionItem := do
  let label ← (v.get "label").str?
  let data := match v.get "data" with
    | .null => none
    | data => some data
  let others := v.fields.filter fun f => !(readFields.contains f.1 || f.2.isNull)
  return ofEditor label (v.get "detail").str? data others

/-- The item as editors receive it. -/
def toJson (i : CompletionItem) : Json :=
  .obj ([("label", Json.str i.label)]
    ++ Json.field? "kind" (i.kind.map fun k => .int k.code)
    ++ (if i.deprecated then [("tags", Json.arr [.int 1])] else [])
    ++ Json.field? "detail" (i.detail.map .str)
    ++ Json.field? "documentation" (i.documentation.map Markdown.toJson)
    ++ Json.field? "sortText" (i.sortText.map .str)
    ++ Json.field? "insertText" (i.insertText.map .str)
    ++ Json.field? "textEdit" (i.textEdit.map TextEdit.toJson)
    ++ Json.field? "data" i.data
    ++ i.others.filter fun f => f.1 != "documentation" || i.documentation.isNone)

/-- The text of a value that is truthy. -/
def truthyText (v : Json) : Option String := if v.isTruthy then some v.text else none

/-- The handle of an entry at a place. -/
def handleOf (name : String) (source : Json) (uri : String) (place : Json) :
    Except ValueFault CompletionHandle := do
  let file ← place.field "file"
  let line ← (← place.field "line").toInteger
  let offset ← (← place.field "offset").toInteger
  return ⟨uri, file.text, line, offset, name, truthyText source⟩

/-- Whether the modifiers of an entry, words with commas between them, say
that it is deprecated. -/
def isDeprecated (modifiers : String) : Bool :=
  (splitAll (· == ',') modifiers.toList).contains "deprecated".toList

/-- The edit an entry asks for in place of its insertion. -/
def replacement? (span : Json) (newText : String) : Except Failure (Option TextEdit) :=
  match span with
  | .obj _ => (Service.spanRange span).map fun range => some ⟨range, newText⟩
  | _ => .ok none

/-- The item of an entry, asked for at a place of a document. -/
def ofEntry (entry : Json) (uri : String) (place : Json) : Except Failure CompletionItem :=
  match entry with
  | .obj _ => do
    let name := (entry.get? "name").elim "" Json.text
    let insertText := truthyText (entry.get "insertText")
    let textEdit ← replacement? (entry.get "replacementSpan") (insertText.getD name)
    let handle ← (handleOf name (entry.get "source") uri place).mapError .value
    let sortText := match entry.get "sortText" with
      | .null => none
      | v => some v.text
    return {
      label := name
      kind := some (CompletionKind.ofWord ((entry.get? "kind").elim "" Json.text))
      deprecated := isDeprecated ((entry.get? "kindModifiers").elim "" Json.text)
      detail := none
      documentation := none
      sortText, insertText, textEdit
      data := some handle.toJson
      others := [] }
  | _ => .error (.value .noFields)

/-- The items of the entries that are objects. -/
def ofEntries (uri : String) (place : Json) : List Json → Except Failure (List CompletionItem)
  | [] => .ok []
  | .obj fields :: rest => do
    let item ← ofEntry (.obj fields) uri place
    let items ← ofEntries uri place rest
    return item :: items
  | _ :: rest => ofEntries uri place rest

/-- The handle an item carries. -/
def handle (i : CompletionItem) : Except Failure CompletionHandle :=
  match i.data.bind CompletionHandle.ofJson? with
  | some h => .ok h
  | none => .error (.invalidState (.noHandle i.label))

/-- The arguments that ask for the details of an entry. -/
def detailArguments (h : CompletionHandle) : Json :=
  let name : Json :=
    match h.source with
    | some s =>
      if s.isEmpty then .str h.entryName
      else .obj [("name", .str h.entryName), ("source", .str s)]
    | none => .str h.entryName
  .obj [("file", .str h.file), ("line", .int h.line), ("offset", .int h.offset),
    ("entryNames", .arr [name])]

/-- The item with the details that came back: its detail and documentation
change, where there is something to say. -/
def withDetails (i : CompletionItem) (body : Json) : CompletionItem :=
  match body with
  | .arr (.obj fields :: _) =>
    let details := Json.obj fields
    let detail := Display.text (details.get "displayParts")
    let documentation := Markdown.ofSections?
      [Display.text (details.get "documentation"), Display.tags (details.get "tags")]
    { i with
      detail := if detail.isEmpty then i.detail else some detail
      documentation := if documentation.isSome then documentation else i.documentation }
  | _ => i

end CompletionItem

end LanguageRelay
