/-!
# Code units

Editors count columns in UTF-16 code units: a character beyond the basic
plane counts twice. `units` measures a text, and `charsFor` finds how many
characters a count of units takes up.
-/

namespace LanguageRelay

/-- The UTF-16 code units of one character. -/
def charUnits (c : Char) : Nat := if 0x10000 ≤ c.toNat then 2 else 1

/-- The UTF-16 code units of a text. -/
def units : List Char → Nat
  | [] => 0
  | c :: rest => charUnits c + units rest

/-- The least number of characters of `text` that take up at least `count`
units; all of them if the text is too short. -/
def charsFor (count : Nat) : List Char → Nat
  | [] => 0
  | c :: rest => if count = 0 then 0 else charsFor (count - charUnits c) rest + 1

end LanguageRelay
