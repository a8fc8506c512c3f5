/-!
# Lines

A text is cut after each line break; a carriage return and the line feed
after it are one break. Each line keeps its break, so the lines concatenate
to the text.
-/

namespace LanguageRelay

/-- The characters that end a line. -/
def isLineBreak (c : Char) : Bool :=
  c == '\n' || c == '\r' || c == '\x0b' || c == '\x0c' || c == '\x1c' || c == '\x1d' || c == '\x1e'
    || c == '\u0085' || c == '\u2028' || c == '\u2029'

/-- Puts a character in front of the first line. -/
def consLine (c : Char) : List (List Char) → List (List Char)
  | [] => [[c]]
  | line :: rest => (c :: line) :: rest

/-- The lines of a text, each with its break. -/
def lines : List Char → List (List Char)
  | [] => []
  | '\r' :: '\n' :: rest => ['\r', '\n'] :: lines rest
  | c :: rest => if isLineBreak c then [c] :: lines rest else consLine c (lines rest)

/-- A carriage return before a line feed is dropped. -/
def joinBreaks : List Char → List Char
  | [] => []
  | '\r' :: '\n' :: rest => '\n' :: joinBreaks rest
  | c :: rest => c :: joinBreaks rest

/-- A character put in front of the first line is put in front of the text. -/
theorem flatten_consLine (c : Char) (ls : List (List Char)) :
    (consLine c ls).flatten = c :: ls.flatten := by
  cases ls <;> simp [consLine]

/-- The lines of a text concatenate to it. -/
theorem flatten_lines (text : List Char) : (lines text).flatten = text := by
  fun_induction lines text with
  | case1 => rfl
  | case2 rest ih => simp [ih]
  | case3 c rest _ _ ih => simp [ih]
  | case4 c rest _ _ ih => simp [flatten_consLine, ih]

end LanguageRelay
