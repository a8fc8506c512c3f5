import LanguageRelay.Editor.Document
import LanguageRelay.Failure
/-!
# Text edits

A list of edits is put into the order of their starts; edits that overlap are
refused. Applying the edits walks the text once from its start.
-/

namespace LanguageRelay

/-- The replacement of a range by a text. -/
structure TextEdit where
  range : Range
  newText : String
deriving DecidableEq, Repr

namespace TextEdit

/-- The edit as editors receive it. -/
def toJson (e : TextEdit) : Json :=
  .obj [("range", e.range.toJson), ("newText", .str e.newText)]

/-- The edit an editor sends. -/
def ofJson? (v : Json) : Option TextEdit := do
  let range ← Range.ofJson? (v.get "range")
  let newText ← (v.get "newText").str?
  return ⟨range, newText⟩

/-- The first edit that begins before the one in front of it ends. -/
def firstOverlap? : List TextEdit → Option TextEdit
  | a :: b :: rest =>
    if a.range.stop ≤ b.range.start then firstOverlap? (b :: rest) else some b
  | _ => none

/-- The edits in the order of their starts; edits with one start keep their
order. Overlapping edits are refused. -/
def sort (edits : List TextEdit) : Except Failure (List TextEdit) :=
  let ordered := edits.mergeSort fun a b => a.range.start ≤ b.range.start
  match firstOverlap? ordered with
  | some e =>
    .error (.protocol (.overlappingEdits e.range.start.line e.range.start.character))
  | none => .ok ordered

/-- The characters from `start` up to `stop`. -/
def slice (text : List Char) (start stop : Nat) : List Char := (text.take stop).drop start

/-- The text from `offset` on with the edits made. -/
def applyFrom (text : List Char) (offset : Nat) : List TextEdit → List Char
  | [] => text.drop offset
  | e :: rest =>
    slice text offset (offsetAt text e.range.start) ++ e.newText.toList
      ++ applyFrom text (offsetAt text e.range.stop) rest

/-- The text with the edits made. -/
def applyAll (text : List Char) (edits : List TextEdit) : Except Failure (List Char) :=
  match sort edits with
  | .ok ordered => .ok (applyFrom text 0 ordered)
  | .error e => .error e

end TextEdit

end LanguageRelay
