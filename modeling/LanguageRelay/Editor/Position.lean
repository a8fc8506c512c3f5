import LanguageRelay.Json.Integer
/-!
# Positions

Editors address text by line and by UTF-16 code unit within the line, both
counted from zero.
-/

namespace LanguageRelay

/-- A place in a text: a line and a code unit of it. -/
structure Position where
  line : Nat
  character : Nat
deriving DecidableEq, Repr, Inhabited

namespace Position

/-- The greatest coordinate a position can have. -/
def maxCoordinate : Int := 2147483647

/-- A coordinate in range. -/
def coordinate? (n : Int) : Option Nat :=
  if 0 ≤ n ∧ n ≤ maxCoordinate then some n.toNat else none

/-- The position with the given coordinates, if both are in range. -/
def ofInts? (line character : Int) : Option Position :=
  match coordinate? line, coordinate? character with
  | some l, some c => some ⟨l, c⟩
  | _, _ => none

/-- Reading order: by line, then by character. -/
protected def le (p q : Position) : Bool :=
  p.line < q.line || (p.line == q.line && p.character ≤ q.character)

instance : LE Position := ⟨fun p q => p.le q = true⟩

instance (p q : Position) : Decidable (p ≤ q) := inferInstanceAs (Decidable (p.le q = true))

/-- The position as editors receive it. -/
def toJson (p : Position) : Json :=
  .obj [("line", .int p.line), ("character", .int p.character)]

/-- The position an editor sends. -/
def ofJson? (v : Json) : Option Position := do
  let line ← (v.get "line").exactInteger?
  let character ← (v.get "character").exactInteger?
  ofInts? line character

end Position

/-- The text between two positions. -/
structure Range where
  start : Position
  stop : Position
deriving DecidableEq, Repr, Inhabited

/-- The range as editors receive it. -/
def Range.toJson (r : Range) : Json :=
  .obj [("start", r.start.toJson), ("end", r.stop.toJson)]

/-- The range an editor sends. -/
def Range.ofJson? (v : Json) : Option Range := do
  let start ← Position.ofJson? (v.get "start")
  let stop ← Position.ofJson? (v.get "end")
  return ⟨start, stop⟩

/-- A range of a document. -/
structure Location where
  uri : String
  range : Range
deriving DecidableEq, Repr, Inhabited

/-- The location as editors receive it. -/
def Location.toJson (l : Location) : Json :=
  .obj [("uri", .str l.uri), ("range", l.range.toJson)]

end LanguageRelay
