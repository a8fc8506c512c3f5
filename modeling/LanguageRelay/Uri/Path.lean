import LanguageRelay.Text.Blank
/-!
# Paths

The normal form of a path: two leading slashes stay two, any other number
becomes one; empty and `.` parts vanish; `..` stays. Two paths with the same
normal form name the same file for the relay.
-/

namespace LanguageRelay

namespace Path

/-- A path that begins at the root. -/
def isAbsolute (path : List Char) : Bool :=
  match path with
  | '/' :: _ => true
  | _ => false

/-- The slashes a normal form begins with. -/
def root (path : List Char) : List Char :=
  match (path.takeWhile (· == '/')).length with
  | 0 => []
  | 2 => ['/', '/']
  | _ => ['/']

/-- The parts between slashes that name something. -/
def parts (path : List Char) : List (List Char) :=
  (splitAll (· == '/') path).filter fun part => !part.isEmpty && part != ['.']

/-- The normal form. -/
def normalize (path : List Char) : List Char :=
  root path ++ ['/'].intercalate (parts path)

end Path

end LanguageRelay
