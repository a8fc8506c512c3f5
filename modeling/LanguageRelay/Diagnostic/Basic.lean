import LanguageRelay.Feature.Display
import LanguageRelay.Service.Location
/-!
# Diagnostics

One entry of an error check becomes one diagnostic of the editor. An entry
without a span is a protocol fault; other entries may fail in other ways.
-/

namespace LanguageRelay

/-- How grave a diagnostic is. -/
inductive Severity where
  | error | warning | information | hint
deriving DecidableEq, Repr

namespace Severity

/-- The number editors know a severity by. -/
def code : Severity → Nat
  | error => 1 | warning => 2 | information => 3 | hint => 4

/-- The severity of a category; any other category is an error. -/
def ofCategory (category : String) : Severity :=
  (List.lookup category
    [("error", error), ("warning", warning), ("suggestion", hint), ("message", information)]).getD
    error

end Severity

/-- What a diagnostic is tagged as. -/
inductive DiagnosticTag where
  | unnecessary | deprecated
deriving DecidableEq, Repr

/-- The number editors know a tag by. -/
def DiagnosticTag.code : DiagnosticTag → Nat
  | unnecessary => 1 | deprecated => 2

/-- A place that a diagnostic refers to. -/
structure RelatedInfo where
  location : Location
  message : String
deriving DecidableEq, Repr

/-- The place as editors receive it. -/
def RelatedInfo.toJson (r : RelatedInfo) : Json :=
  .obj [("location", r.location.toJson), ("message", .str r.message)]

/-- A diagnostic of a document. -/
structure Diagnostic where
  range : Range
  message : String
  severity : Severity
  code : Option Json
  source : String
  tags : List DiagnosticTag
  related : List RelatedInfo

namespace Diagnostic

/-- A list that editors receive only when it is not empty. -/
def listField (key : String) (items : List Json) : Fields :=
  if items.isEmpty then [] else [(key, .arr items)]

/-- The diagnostic as editors receive it. -/
def toJson (d : Diagnostic) : Json :=
  .obj ([("range", d.range.toJson), ("message", .str d.message),
      ("severity", .int d.severity.code)]
    ++ Json.field? "code" d.code
    ++ [("source", .str d.source)]
    ++ listField "tags" (d.tags.map fun t => .int t.code)
    ++ listField "relatedInformation" (d.related.map RelatedInfo.toJson))

/-- The location of related information. A span that names a file must have
both its ends. -/
def relatedLocation (span : Json) (file : Json) : Except Failure Location := do
  let start ← (span.field "start").mapError .value
  let stop ← (span.field "end").mapError .value
  let range ← Service.toRange start stop
  return ⟨Uri.ofFile file.text, range⟩

/-- The file of a span, if it is one. -/
def spanFile? (span : Json) : Option Json :=
  match span with
  | .obj _ => span.get? "file"
  | _ => none

/-- The related information among the items: those whose span names a file. -/
def relatedItems : List Json → Except Failure (List RelatedInfo)
  | [] => .ok []
  | item :: rest =>
    match spanFile? (item.get "span") with
    | none => relatedItems rest
    | some file => do
      let location ← relatedLocation (item.get "span") file
      let later ← relatedItems rest
      return ⟨location, (item.get? "message").elim "" Json.text⟩ :: later

/-- The code of an entry: a number, a truth value or a text. -/
def codeOf : Json → Option Json
  | .int n => some (.int n)
  | .bool b => some (.bool b)
  | .str s => some (.str s)
  | _ => none

/-- The tags of an entry. -/
def tagsOf (entry : Json) : List DiagnosticTag :=
  (if (entry.get "reportsUnnecessary").isTruthy then [.unnecessary] else [])
    ++ (if (entry.get "reportsDeprecated").isTruthy then [.deprecated] else [])

/-- Who found the fault. -/
def sourceOf (entry : Json) : String :=
  if (entry.get "source").isTruthy then (entry.get "source").text else "typescript"

/-- The diagnostic of an entry. -/
def ofEntry (entry : Json) : Except Failure Diagnostic :=
  match entry with
  | .obj _ =>
    match entry.get? "start", entry.get? "end" with
    | some start, some stop => do
      let range ← Service.toRange start stop
      let related ← relatedItems (entry.get "relatedInformation").items
      return {
        range
        message := (entry.get? "text").elim "" Json.text
        severity := Severity.ofCategory ((entry.get? "category").elim "error" Json.text)
        code := codeOf (entry.get "code")
        source := sourceOf entry
        tags := tagsOf entry
        related }
    | _, _ => .error (.protocol (.diagnosticWithoutSpan entry))
  | _ => .error (.value .wrongType)

/-- The diagnostics of the entries and the faults of those skipped over. Any
other failure ends the conversion. -/
def ofEntries : List Json → List ProtocolFault × Except Failure (List Diagnostic)
  | [] => ([], .ok [])
  | entry :: rest =>
    match ofEntry entry with
    | .ok d =>
      let (faults, later) := ofEntries rest
      (faults, later.map fun ds => d :: ds)
    | .error (.protocol fault) =>
      let (faults, later) := ofEntries rest
      (fault :: faults, later)
    | .error e => ([], .error e)

end Diagnostic

end LanguageRelay
