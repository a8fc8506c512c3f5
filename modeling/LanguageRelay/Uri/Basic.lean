import LanguageRelay.Uri.Percent
import LanguageRelay.Uri.Path
import LanguageRelay.Uri.Host
/-!
# URIs

Documents have URIs, files have paths. `Uri.toPath` gives the path of a
`file` URI and leaves any other URI as it is; `Uri.ofPath` gives the URI of an
absolute path in normal form and leaves any other path as it is.
-/

namespace LanguageRelay

/-- The parts of a URI that matter: its scheme in small letters, its
authority, and its path without query and fragment. -/
structure Uri where
  scheme : List Char
  authority : List Char
  path : List Char
deriving DecidableEq, Repr

namespace Uri

/-- An ASCII letter. -/
def isLetter (c : Char) : Bool := ('a' ≤ c && c ≤ 'z') || ('A' ≤ c && c ≤ 'Z')

/-- The characters of a scheme. -/
def isSchemeChar (c : Char) : Bool :=
  isLetter c || ('0' ≤ c && c ≤ '9') || c == '+' || c == '-' || c == '.'

/-- The small form of an ASCII letter. -/
def small (c : Char) : Char :=
  if 'A' ≤ c && c ≤ 'Z' then Char.ofNat (c.toNat + 32) else c

/-- Leading controls and spaces are dropped, as are tabs and line ends
anywhere. -/
def clean (text : List Char) : List Char :=
  (text.dropWhile fun c => c.toNat ≤ 0x20).filter fun c => c != '\t' && c != '\r' && c != '\n'

/-- The scheme, if the text has one, and what follows its colon. -/
def splitScheme (text : List Char) : List Char × List Char :=
  match Host.cut ':' text with
  | (name, some rest) =>
    if (name.head?.any isLetter) && name.all isSchemeChar then (name.map small, rest)
    else ([], text)
  | (_, none) => ([], text)

/-- The end of an authority. -/
def endsAuthority (c : Char) : Bool := c == '/' || c == '?' || c == '#'

/-- The authority, if two slashes announce one, and what follows it. -/
def splitAuthority (text : List Char) : List Char × List Char :=
  match text with
  | '/' :: '/' :: rest =>
    (rest.takeWhile (!endsAuthority ·), rest.dropWhile (!endsAuthority ·))
  | _ => ([], text)

/-- The parts of a URI; none if its authority is malformed. -/
def parse? (text : List Char) : Option Uri :=
  let (scheme, rest) := splitScheme (clean text)
  let (authority, rest) := splitAuthority rest
  if Host.isAuthority authority then
    some ⟨scheme, authority, (Host.cut '?' (Host.cut '#' rest).1).1⟩
  else none

/-- The scheme of file URIs. -/
def fileScheme : List Char := "file".toList

/-- The file a URI names: the decoded path of a `file` URI, any other URI as
it is. None if the URI is malformed. -/
def toPath? (text : List Char) : Option (List Char) :=
  (parse? text).map fun uri =>
    if uri.scheme = fileScheme then Percent.decode uri.path else text

/-- The URI of a file: `file://` and the normal form of an absolute path, any
other path as it is. -/
def ofPath (path : List Char) : List Char :=
  if Path.isAbsolute path then "file://".toList ++ Percent.encode (Path.normalize path) else path

/-- The file a URI names, over strings. -/
def fileOf? (uri : String) : Option String := (toPath? uri.toList).map String.ofList

/-- The URI of a file, over strings. -/
def ofFile (file : String) : String := String.ofList (ofPath file.toList)

end Uri

end LanguageRelay
