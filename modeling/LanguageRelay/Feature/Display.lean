import LanguageRelay.Json.Value
/-!
# Display text

The analysis server gives text as a string or as a list of parts, and tags
of a documentation as names with texts. Both are put together here, and
sections of documentation into one Markdown text.
-/

namespace LanguageRelay

namespace Display

/-- Joins texts with a separator between them. -/
def join (sep : String) (parts : List String) : String := String.intercalate sep parts

/-- The text of one part; parts that are no objects have none. -/
def partText : Json → String
  | .obj fields => ((Json.obj fields).get? "text").elim "" Json.text
  | _ => ""

/-- The text of a string or of a list of parts. -/
def text : Json → String
  | .str s => s
  | .arr parts => String.join (parts.map partText)
  | _ => ""

/-- One tag; tags that are no objects are left out. -/
def tag? : Json → Option String
  | .obj fields =>
    let v := Json.obj fields
    let body := text (v.get "text")
    let name := (v.get? "name").elim "" Json.text
    some ("*@" ++ name ++ "*" ++ if body.isEmpty then "" else " " ++ body)
  | _ => none

/-- The tags of a documentation, with empty lines between them. -/
def tags : Json → String
  | .arr items => join "\n\n" (items.filterMap tag?)
  | _ => ""

/-- The sections that are not empty, with empty lines between them; none if
all are empty. -/
def markdown? (sections : List String) : Option String :=
  let value := join "\n\n" (sections.filter fun s => !s.isEmpty)
  if value.isEmpty then none else some value

end Display

/-- Documentation in Markdown. -/
structure Markdown where
  value : String
deriving DecidableEq, Repr

/-- The documentation as editors receive it. -/
def Markdown.toJson (m : Markdown) : Json :=
  .obj [("kind", .str "markdown"), ("value", .str m.value)]

/-- Documentation made of sections. -/
def Markdown.ofSections? (sections : List String) : Option Markdown :=
  (Display.markdown? sections).map Markdown.mk

namespace Json

/-- The elements a value yields when it is walked through: the items of an
array, the keys of an object, the characters of a text. -/
def elements : Json → Option (List Json)
  | arr items => some items
  | obj fields => some (fields.map fun f => str f.1)
  | str s => some (s.toList.map fun c => str (String.singleton c))
  | _ => none

/-- The elements of a value, where a value that is not truthy has none. -/
def elementsOrNone (v : Json) : Option (List Json) := if v.isTruthy then v.elements else some []

/-- A field that editors receive only when it is set. -/
def field? (key : String) : Option Json → Fields
  | some v => [(key, v)]
  | none => []

end Json

end LanguageRelay
