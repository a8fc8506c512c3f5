import LanguageRelay.Config.Moment
import LanguageRelay.Json.Integer
/-!
# Settings

The values that a configuration file, the environment or the command line
give: those of JSON, and dates and times.
-/

namespace LanguageRelay

/-- A value that something is set to. -/
inductive Setting where
  | null
  | bool (b : Bool)
  | int (n : Int)
  | float (x : Double)
  | str (s : String)
  | date (d : Date)
  | time (t : TimeOfDay)
  | dateTime (d : DateTime)
  | list (items : List Setting)
  | table (fields : List (String × Setting))
deriving Inhabited

/-- Settings by name. -/
abbrev Settings := List (String × Setting)

namespace Setting

/-- Whether a setting counts as given: all but null, false, zero and what is
empty. -/
def isTruthy : Setting → Bool
  | null => false
  | bool b => b
  | int n => n != 0
  | float x => !x.isZero
  | str s => !s.isEmpty
  | date _ => true
  | time _ => true
  | dateTime _ => true
  | list items => !items.isEmpty
  | table fields => !fields.isEmpty

mutual

/-- The literal form of a setting. -/
def literal : Setting → String
  | null => "None"
  | bool b => Json.boolText b
  | int n => String.ofList (Numeral.showInt n)
  | float x => x.text
  | str s => quoted s
  | date d => d.literal
  | time t => t.literal
  | dateTime d => d.literal
  | list items => "[" ++ literalItems items ++ "]"
  | table fields => "\x7b" ++ literalFields fields ++ "\x7d"

/-- Literal forms with commas between them. -/
def literalItems : List Setting → String
  | [] => ""
  | [v] => v.literal
  | v :: rest => v.literal ++ ", " ++ literalItems rest

/-- Named literal forms with commas between them. -/
def literalFields : List (String × Setting) → String
  | [] => ""
  | [(k, v)] => quoted k ++ ": " ++ v.literal
  | (k, v) :: rest => quoted k ++ ": " ++ v.literal ++ ", " ++ literalFields rest

end

/-- The text of a setting: of a string itself, of a date or time its standard
text, of anything else the literal form. -/
def text : Setting → String
  | str s => s
  | date d => d.text
  | time t => t.text
  | dateTime d => d.textWith " "
  | v => v.literal

mutual

/-- The setting can be written: no integer in it has more digits than are
written. -/
def isWritable : Setting → Bool
  | int n => n.natAbs < Nat.pow 10 Numeral.maxDigits
  | list items => areWritable items
  | table fields => fieldsAreWritable fields
  | _ => true

/-- All of the settings can be written. -/
def areWritable : List Setting → Bool
  | [] => true
  | v :: rest => v.isWritable && areWritable rest

/-- All of the named settings can be written. -/
def fieldsAreWritable : List (String × Setting) → Bool
  | [] => true
  | (_, v) :: rest => v.isWritable && fieldsAreWritable rest

end

/-- The integer a setting stands for. -/
def toInteger : Setting → Except ValueFault Int
  | bool b => (Json.bool b).toInteger
  | int n => .ok n
  | float x => (Json.float x).toInteger
  | str s => (Json.str s).toInteger
  | _ => .error .wrongType

mutual

/-- The setting a JSON value gives. -/
def ofJson : Json → Setting
  | .null => null
  | .bool b => bool b
  | .int n => int n
  | .float x => float x
  | .str s => str s
  | .arr items => list (ofJsonItems items)
  | .obj fields => table (ofJsonFields fields)

/-- The settings the items of an array give. -/
def ofJsonItems : List Json → List Setting
  | [] => []
  | v :: rest => ofJson v :: ofJsonItems rest

/-- The settings the members of an object give. -/
def ofJsonFields : List (String × Json) → List (String × Setting)
  | [] => []
  | (k, v) :: rest => (k, ofJson v) :: ofJsonFields rest

end

/-- The settings in a table; any other value holds none. -/
def fields : Setting → Settings
  | table fields => fields
  | _ => []

end Setting

namespace Settings

/-- The setting under a name, or another one if there is none. -/
def getD (name : String) (otherwise : Setting) (t : Settings) : Setting :=
  (Table.get? name t).getD otherwise

/-- Settings over others: those that are null give nothing. -/
def overlay (upper lower : Settings) : Settings :=
  upper.foldl
    (fun merged f =>
      match f.2 with
      | .null => merged
      | v => Table.put f.1 v merged) lower

/-- The settings of a section; there are none where it is no table. -/
def sectionOf (name : String) (t : Settings) : Settings :=
  (getD name (.table []) t).fields

end Settings

end LanguageRelay
