import LanguageRelay.Editor.Position
import LanguageRelay.Json.Integer
import LanguageRelay.Uri.Basic
/-!
# Locations of the analysis server

The analysis server counts lines and code units from one; editors count from
zero. A location of the server is an object with a `line` and an `offset`, a
span one with a `start` and an `end`.
-/

namespace LanguageRelay

namespace Service

/-- The fields of the location of a position. -/
def locationFields (p : Position) : Fields :=
  [("line", .int (p.line + 1)), ("offset", .int (p.character + 1))]

/-- The fields of a location in a file. -/
def fileFields (file : String) (p : Position) : Fields := ("file", .str file) :: locationFields p

/-- A coordinate of a location. A missing or unreadable one is a fault of
the location, which the wording shows; an infinite one is not caught. -/
def coordinate (location : Json) (key : String) : Except Failure Int :=
  match location.get? key with
  | none => .error (.showing location (.invalidLocation location))
  | some v =>
    match v.toInteger with
    | .ok n => .ok n
    | .error .infinite => .error (.value .infinite)
    | .error _ => .error (.showing location (.invalidLocation location))

/-- One less, but not below zero. -/
def fromOne (n : Int) : Int := max 0 (n - 1)

/-- The position of a location. -/
def toPosition (location : Json) : Except Failure Position := do
  let line ← coordinate location "line"
  let offset ← coordinate location "offset"
  match Position.ofInts? (fromOne line) (fromOne offset) with
  | some p => return p
  | none => throw (.value .badValue)

/-- The range between two locations. -/
def toRange (start stop : Json) : Except Failure Range := do
  let start ← toPosition start
  let stop ← toPosition stop
  return ⟨start, stop⟩

/-- The range of a span. -/
def spanRange (span : Json) : Except Failure Range :=
  match span with
  | .obj _ =>
    match span.get "start", span.get "end" with
    | .obj start, .obj stop => toRange (.obj start) (.obj stop)
    | _, _ => .error (.showing span (.invalidSpan span))
  | _ => .error (.value .noFields)

/-- The location of a span that names its file. -/
def spanLocation (span : Json) : Except Failure Location :=
  match span with
  | .obj _ =>
    match span.get "file" with
    | .str file => do
      let range ← spanRange span
      return ⟨Uri.ofFile file, range⟩
    | _ => .error (.showing span (.spanWithoutFile span))
  | _ => .error (.value .noFields)

end Service

end LanguageRelay
