import LanguageRelay.Text.Ranges
/-!
# Blanks

The characters that count as white space, and the three ways text is cut at
them: `trim` at both ends, `trimEnd` at the end, `fields` everywhere.
-/

namespace LanguageRelay

/-- Code points of white space: the ASCII blanks and separators, the next-line
control and the spaces and separators of Unicode. -/
def blankRanges : List (Nat × Nat) :=
  [(9, 13), (28, 32), (133, 133), (160, 160), (5760, 5760), (8192, 8202), (8232, 8233),
   (8239, 8239), (8287, 8287), (12288, 12288)]

/-- The character is white space. -/
def isBlank (c : Char) : Bool := inRanges blankRanges c

/-- The text without the blanks it begins with. -/
def trimStart (text : List Char) : List Char := text.dropWhile isBlank

/-- The text without the blanks it ends with. -/
def trimEnd (text : List Char) : List Char := (trimStart text.reverse).reverse

/-- The text without the blanks around it. -/
def trim (text : List Char) : List Char := trimEnd (trimStart text)

/-- The pieces between the characters that satisfy `p`; one more piece than
there are such characters. -/
def splitAll (p : Char → Bool) : List Char → List (List Char)
  | [] => [[]]
  | c :: rest =>
    match splitAll p rest with
    | [] => [[c]]
    | piece :: pieces => if p c then [] :: piece :: pieces else (c :: piece) :: pieces

/-- The non-empty runs of characters that are not blank. -/
def splitBlanks (text : List Char) : List (List Char) :=
  (splitAll isBlank text).filter fun piece => !piece.isEmpty

end LanguageRelay
