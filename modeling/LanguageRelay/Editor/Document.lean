import LanguageRelay.Editor.Position
import LanguageRelay.Text.Lines
import LanguageRelay.Text.Units
import LanguageRelay.Text.Word
/-!
# Document text

A position of an editor is resolved to a row and a column in characters.
A character beyond the end of its line is clamped to the last unit of the
line, and the clamped position is what the relay goes on with; a line beyond
the last one resolves to the end of the text.

`offsetAt` gives the place of a position in the text, `replace` the text after
the change of a range.
-/

namespace LanguageRelay

/-- Where a position falls: its row, its column in characters, and the
position as clamped. -/
structure Spot where
  row : Nat
  column : Nat
  shown : Position
deriving DecidableEq, Repr

/-- The position with its character clamped to a line of `width` units. -/
def Position.clampTo (p : Position) (width : Nat) : Position :=
  if width < p.character then { p with character := width - 1 } else p

/-- Resolves a position in a text given by its lines. -/
def resolve (ls : List (List Char)) (p : Position) : Spot :=
  match ls[p.line]? with
  | some line =>
    let shownLine := joinBreaks line
    let q := p.clampTo (units shownLine)
    ⟨p.line, charsFor q.character shownLine, q⟩
  | none =>
    match ls.getLast? with
    | some last => ⟨ls.length - 1, units last, p⟩
    | none => ⟨0, 0, p⟩

/-- The number of characters in the first `row` lines. -/
def rowOffset (ls : List (List Char)) (row : Nat) : Nat := (ls.take row).flatten.length

/-- The place of a position in a text, in characters from its start. -/
def offsetAt (text : List Char) (p : Position) : Nat :=
  let ls := lines text
  let spot := resolve ls p
  spot.column + rowOffset ls spot.row

/-- What remains of each line when the text between two spots is replaced:
rows before the first and after the second stay, the first keeps its start
and takes the new text, the second keeps its end. -/
def spliceRow (start stop : Spot) (newText : List Char) (row : Nat) (line : List Char) :
    List Char :=
  if row < start.row then line
  else if stop.row < row then line
  else
    (if row = start.row then line.take start.column ++ newText else [])
      ++ (if row = stop.row then line.drop stop.column else [])

/-- A text after the replacement of a range, and the range as clamped. -/
def replace (text : List Char) (range : Range) (newText : List Char) : List Char × Range :=
  let ls := lines text
  let start := resolve ls range.start
  let stop := resolve ls range.stop
  let result :=
    if start.row = ls.length then text ++ newText
    else (ls.mapIdx (spliceRow start stop newText)).flatten
  (result, ⟨start.shown, stop.shown⟩)

/-- A change of a document: of a range, or of the whole text. -/
structure TextChange where
  range : Option Range
  text : String
deriving DecidableEq, Repr

/-- The change an editor sends: one without a range is of the whole text. -/
def TextChange.ofJson? (v : Json) : Option TextChange := do
  let text ← (v.get "text").str?
  match v.get "range" with
  | .null => return ⟨none, text⟩
  | range => return ⟨some (← Range.ofJson? range), text⟩

/-- The text after a change, and the range of the change as clamped. -/
def TextChange.apply (change : TextChange) (text : List Char) : List Char × Option Range :=
  match change.range with
  | some range =>
    let (result, shown) := replace text range change.text.toList
    (result, some shown)
  | none => (change.text.toList, none)

/-- The position after the last character of a text, where line feeds alone
end lines. -/
def documentEnd (text : List Char) : Position :=
  let last := (text.reverse.takeWhile (· != '\n')).reverse
  ⟨text.count '\n', units last⟩

/-- The range from the start of a text to its end. -/
def wholeRange (text : List Char) : Range := ⟨⟨0, 0⟩, documentEnd text⟩

/-- The identifier that ends at a position. -/
def wordBefore (text : List Char) (p : Position) : List Char :=
  let before := text.take (offsetAt text p)
  identifierSuffix (before.reverse.takeWhile (· != '\n')).reverse

end LanguageRelay
