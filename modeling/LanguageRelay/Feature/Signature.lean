import LanguageRelay.Editor.Position
import LanguageRelay.Feature.Display
import LanguageRelay.Json.Integer
/-!
# Signatures

The signatures of a call, each with its parameters, and which signature and
parameter are the active ones.
-/

namespace LanguageRelay

/-- A parameter of a signature. -/
structure ParameterInfo where
  label : String
  documentation : Option String
deriving DecidableEq, Repr

/-- The parameter as editors receive it. -/
def ParameterInfo.toJson (p : ParameterInfo) : Json :=
  .obj ([("label", Json.str p.label)] ++ Json.field? "documentation" (p.documentation.map .str))

/-- A signature. -/
structure SignatureInfo where
  label : String
  documentation : Option Markdown
  parameters : List ParameterInfo
deriving DecidableEq, Repr

/-- The signature as editors receive it. -/
def SignatureInfo.toJson (s : SignatureInfo) : Json :=
  .obj ([("label", Json.str s.label)]
    ++ Json.field? "documentation" (s.documentation.map Markdown.toJson)
    ++ [("parameters", .arr (s.parameters.map ParameterInfo.toJson)), ("activeParameter", .null)])

/-- The signatures of a call. -/
structure SignatureHelp where
  signatures : List SignatureInfo
  activeSignature : Nat
  activeParameter : Nat
deriving DecidableEq, Repr

/-- The signatures as editors receive them. -/
def SignatureHelp.toJson (h : SignatureHelp) : Json :=
  .obj [("signatures", .arr (h.signatures.map SignatureInfo.toJson)),
    ("activeSignature", .int h.activeSignature), ("activeParameter", .int h.activeParameter)]

namespace SignatureInfo

/-- A text, unless it is empty. -/
def nonEmpty (s : String) : Option String := if s.isEmpty then none else some s

/-- A parameter; parameters that are no objects are left out. -/
def parameter? : Json → Option ParameterInfo
  | .obj fields =>
    let v := Json.obj fields
    some ⟨Display.text (v.get "displayParts"), nonEmpty (Display.text (v.get "documentation"))⟩
  | _ => none

/-- A signature: its label is made of the parameters' labels. -/
def ofItem (item : Json) : Except Failure SignatureInfo :=
  match item with
  | .obj _ =>
    match (item.get "parameters").elementsOrNone with
    | none => .error (.value .wrongType)
    | some elements =>
      let parameters := elements.filterMap parameter?
      let labels := Display.join (Display.text (item.get "separatorDisplayParts"))
        (parameters.map ParameterInfo.label)
      .ok ⟨Display.text (item.get "prefixDisplayParts") ++ labels
          ++ Display.text (item.get "suffixDisplayParts"),
        Markdown.ofSections?
          [Display.text (item.get "documentation"), Display.tags (item.get "tags")],
        parameters⟩
  | _ => .error (.value .noFields)

/-- The signatures of the items that are objects. -/
def ofItems : List Json → Except Failure (List SignatureInfo)
  | [] => .ok []
  | .obj fields :: rest => do
    let first ← ofItem (.obj fields)
    let later ← ofItems rest
    return first :: later
  | _ :: rest => ofItems rest

end SignatureInfo

namespace SignatureHelp

/-- An index in an answer; missing, it is zero. -/
def index (body : Json) (key : String) : Except Failure Int :=
  match body.get? key with
  | none => .ok 0
  | some v => v.toInteger.mapError .value

/-- The signatures in an answer; none if it has no items. -/
def ofBody (body : Json) : Except Failure (Option SignatureHelp) :=
  if (body.get "items").isTruthy then
    match (body.get "items").elements with
    | none => .error (.value .wrongType)
    | some items => do
      let signatures ← SignatureInfo.ofItems items
      let activeSignature ← index body "selectedItemIndex"
      let activeParameter ← index body "argumentIndex"
      match Position.coordinate? activeSignature, Position.coordinate? activeParameter with
      | some s, some p => return some ⟨signatures, s, p⟩
      | _, _ => throw (.value .badValue)
  else .ok none

end SignatureHelp

end LanguageRelay
