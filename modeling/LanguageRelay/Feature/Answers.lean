import LanguageRelay.Editor.TextEdit
import LanguageRelay.Feature.Display
import LanguageRelay.Service.Location
/-!
# Hover, navigation, formatting, renaming

The answers to the remaining questions, each from the body of the analysis
server's response.
-/

namespace LanguageRelay

/-- What is shown for a symbol. -/
structure Hover where
  contents : Markdown
  range : Option Range
deriving DecidableEq, Repr

namespace Hover

/-- The hover as editors receive it. -/
def toJson (h : Hover) : Json :=
  .obj ([("contents", h.contents.toJson)] ++ Json.field? "range" (h.range.map Range.toJson))

/-- The display text as a block of code. -/
def codeBlock (display : String) : String :=
  if display.isEmpty then "" else "```typescript\n" ++ display ++ "\n```"

/-- The range of a hover: only where both its ends are objects. -/
def rangeOf (body : Json) : Except Failure (Option Range) :=
  match body.get "start", body.get "end" with
  | .obj start, .obj stop => (Service.toRange (.obj start) (.obj stop)).map some
  | _, _ => .ok none

/-- The hover in an answer; none if there is nothing to show. -/
def ofBody (body : Json) : Except Failure (Option Hover) :=
  match body with
  | .obj _ =>
    match Markdown.ofSections? [codeBlock (Display.text (body.get "displayString")),
        Display.text (body.get "documentation"), Display.tags (body.get "tags")] with
    | none => .ok none
    | some contents => (rangeOf body).map fun range => some ⟨contents, range⟩
  | _ => .ok none

end Hover

namespace Location

/-- The locations of the spans that are objects and satisfy `keep`. -/
def ofSpans (keep : Json → Bool) : List Json → Except Failure (List Location)
  | [] => .ok []
  | .obj fields :: rest =>
    if keep (.obj fields) then do
      let first ← Service.spanLocation (.obj fields)
      let later ← ofSpans keep rest
      return first :: later
    else ofSpans keep rest
  | _ :: rest => ofSpans keep rest

/-- The definitions in an answer. -/
def definitions (body : Json) : Except Failure (List Location) :=
  ofSpans (fun _ => true) body.items

/-- The references in an answer, with or without the declarations among
them. -/
def references (includeDeclaration : Bool) (body : Json) : Except Failure (List Location) :=
  match body with
  | .obj _ =>
    match ((body.get? "refs").getD (.arr [])).elements with
    | none => .error (.value .wrongType)
    | some refs => ofSpans (fun r => includeDeclaration || !(r.get "isDefinition").isTruthy) refs
  | _ => .ok []

end Location

namespace TextEdit

/-- The edit an object describes. -/
def ofJson (edit : Json) : Except Failure TextEdit := do
  let start ← (edit.field "start").mapError .value
  let stop ← (edit.field "end").mapError .value
  let range ← Service.toRange start stop
  return ⟨range, (edit.get? "newText").elim "" Json.text⟩

/-- The edits of the items that are objects. -/
def ofItems : List Json → Except Failure (List TextEdit)
  | [] => .ok []
  | .obj fields :: rest => do
    let first ← ofJson (.obj fields)
    let later ← ofItems rest
    return first :: later
  | _ :: rest => ofItems rest

/-- The edits in an answer, in order. -/
def ofBody (body : Json) : Except Failure (List TextEdit) := do
  let edits ← ofItems body.items
  sort edits

/-- The line end that formatting is to use: a carriage return and a line feed
where the text has one, else a line feed. -/
def lineEnd (text : List Char) : String :=
  if (text.zip (text.drop 1)).any fun p => p.1 == '\r' && p.2 == '\n' then "\r\n" else "\n"

end TextEdit

/-- Edits of several documents, in the order of their first mention. -/
structure WorkspaceEdit where
  changes : List (String × List TextEdit)
deriving DecidableEq, Repr

namespace WorkspaceEdit

/-- The edits as editors receive them. -/
def toJson (e : WorkspaceEdit) : Json :=
  .obj [("changes", .obj (e.changes.map fun c => (c.1, .arr (c.2.map TextEdit.toJson))))]

/-- Adds edits of one document behind those it has. -/
def add (uri : String) (edits : List TextEdit) :
    List (String × List TextEdit) → List (String × List TextEdit)
  | [] => [(uri, edits)]
  | (u, es) :: rest => if u = uri then (u, es ++ edits) :: rest else (u, es) :: add uri edits rest

/-- The text of a field that is put around the new name. -/
def affix (loc : Json) (key : String) : String := (loc.get? key).elim "" Json.text

/-- The edits at the places of one file; items that are no objects are left
out. -/
def atPlaces (newName : String) : List Json → Except Failure (List TextEdit)
  | [] => .ok []
  | .obj fields :: rest => do
    let loc := Json.obj fields
    let range ← Service.spanRange loc
    let later ← atPlaces newName rest
    return ⟨range, affix loc "prefixText" ++ newName ++ affix loc "suffixText"⟩ :: later
  | _ :: rest => atPlaces newName rest

/-- The file and the places of a group. -/
def group? (group : Json) : Option String :=
  match group, group.get "file" with
  | .obj _, .str file => some file
  | _, _ => none

/-- The edits of several groups of places, added to those already found. -/
def ofGroups (newName : String) (found : List (String × List TextEdit)) :
    List Json → Except Failure (List (String × List TextEdit))
  | [] => .ok found
  | group :: rest =>
    match group? group with
    | none => .error (.protocol (.malformedGroup group))
    | some file =>
      match (group.get "locs").elementsOrNone with
      | none => .error (.value .wrongType)
      | some places => do
        let edits ← atPlaces newName places
        ofGroups newName (add (Uri.ofFile file) edits found) rest

/-- Why a symbol cannot be renamed. -/
def refusal (info : Json) : String :=
  let reason := info.get "localizedErrorMessage"
  if reason.isTruthy then reason.text else "You cannot rename this element."

/-- The edits in an answer to a rename. -/
def ofBody (command newName : String) (body : Json) : Except Failure WorkspaceEdit :=
  let info := body.get "info"
  if (info.get "canRename").isTruthy then
    match (body.get "locs").elementsOrNone with
    | none => .error (.value .wrongType)
    | some groups => (ofGroups newName [] groups).map WorkspaceEdit.mk
  else .error (.analysis command (refusal info))

end WorkspaceEdit

end LanguageRelay
