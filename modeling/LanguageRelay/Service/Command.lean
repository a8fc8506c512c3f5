import LanguageRelay.Failure
import LanguageRelay.Json.Lenient
import LanguageRelay.Json.Writer
/-!
# Commands for the analysis server

A command has a number, a name and arguments. It is written as one line of
ASCII JSON; arguments that are null are left out.
-/

namespace LanguageRelay

namespace Service

/-- A numbered command. -/
structure Command where
  seq : Int
  name : String
  arguments : Json

namespace Command

/-- The command with the given fields, if number and name are readable. -/
def ofJson? (seq name arguments : Json) : Option Command :=
  match seq.lenientInt?, name.str? with
  | some seq, some name => some ⟨seq, name, arguments⟩
  | _, _ => none

/-- The arguments field: none when they are null. -/
def argumentsField : Json → Fields
  | .null => []
  | arguments => [("arguments", arguments)]

/-- The command as an object. -/
def toJson (c : Command) : Json :=
  .obj ([("seq", .int c.seq), ("type", .str "request"), ("command", .str c.name)]
    ++ argumentsField c.arguments)

end Command

/-- The line that carries a value: its text and a line feed. -/
def encodeLine (v : Json) : List Char := v.write ++ ['\n']

/-- The line of a value, if the value can be written. -/
def line? (v : Json) : Except Failure (List Char) :=
  if v.isWritable then .ok (encodeLine v) else .error (.value .badValue)

/-- The fields of the file a command is about. -/
def fileArgument (file : String) : Json := .obj [("file", .str file)]

/-! ## Names of commands -/

/-- Makes a document known with its whole text. -/
def openName : String := "open"

/-- Changes a document. -/
def changeName : String := "change"

/-- Forgets a document. -/
def closeName : String := "close"

/-- Sets preferences. -/
def configureName : String := "configure"

/-- Asks for completions at a place. -/
def completionsName : String := "completions"

/-- Asks for the details of one completion. -/
def completionDetailsName : String := "completionEntryDetails"

/-- Asks for the references to a symbol. -/
def referencesName : String := "references"

/-- Asks for the symbols of a document. -/
def navigationTreeName : String := "navtree"

/-- Asks for the signatures of a call. -/
def signatureHelpName : String := "signatureHelp"

/-- Asks for the edits that format a range. -/
def formatName : String := "format"

/-- Asks what is known about a symbol. -/
def quickInfoName : String := "quickinfo"

/-- Asks for the definition of a symbol. -/
def definitionName : String := "definition"

/-- Asks for the places of a symbol to rename. -/
def renameName : String := "rename"

/-- Asks for an error check of files. -/
def errorCheckName : String := "geterr"

/-- Ends the analysis server. -/
def exitName : String := "exit"

/-! ## Names of events -/

/-- An error check ended. -/
def completedEvent : String := "requestCompleted"

end Service

end LanguageRelay
