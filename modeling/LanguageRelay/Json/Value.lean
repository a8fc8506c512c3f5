import LanguageRelay.Number.Decimal
import LanguageRelay.Table
import LanguageRelay.Text.Quoted
/-!
# JSON values

Integers are exact, objects keep the order of their keys. Besides access to
fields the module says how a value shows in a message: `Json.text` as it is,
`Json.literal` with texts in quotes. Both are meant for values that can be written at all
(`Json.isWritable`): an integer of too many digits is refused.
-/

namespace LanguageRelay

/-- A JSON value. Its texts have no lone surrogates. -/
inductive Json where
  | null
  | bool (b : Bool)
  | int (n : Int)
  | float (x : Double)
  | str (s : String)
  | arr (items : List Json)
  | obj (fields : List (String × Json))
deriving Inhabited, Repr

/-- The fields of an object, in order. -/
abbrev Fields := List (String × Json)

namespace Json

/-- The fields of an object; none for other values. -/
def fields? : Json → Option Fields
  | obj fields => some fields
  | _ => none

/-- The fields of an object; other values count as an object without any. -/
def fields : Json → Fields
  | obj fields => fields
  | _ => []

/-- The value under a key of an object. -/
def get? (v : Json) (key : String) : Option Json := Table.get? key v.fields

/-- The value under a key of an object, or `null`. -/
def get (v : Json) (key : String) : Json := (v.get? key).getD .null

/-- The items of an array; other values count as an empty one. -/
def items : Json → List Json
  | arr items => items
  | _ => []

/-- The text of a string value. -/
def str? : Json → Option String
  | str s => some s
  | _ => none

/-- The value is null. -/
def isNull : Json → Bool
  | null => true
  | _ => false

/-- Whether a value counts as present: not null, false, zero or empty. -/
def isTruthy : Json → Bool
  | null => false
  | bool b => b
  | int n => n != 0
  | float x => !x.isZero
  | str s => !s.isEmpty
  | arr items => !items.isEmpty
  | obj fields => !fields.isEmpty

/-- The name messages give to the kind of a value. -/
def kindName : Json → String
  | null => "NoneType"
  | bool _ => "bool"
  | int _ => "int"
  | float _ => "float"
  | str _ => "str"
  | arr _ => "list"
  | obj _ => "dict"

mutual

/-- The value can be written: no integer in it has more digits than are
written. -/
def isWritable : Json → Bool
  | int n => n.natAbs < Nat.pow 10 Numeral.maxDigits
  | arr items => areWritable items
  | obj fields => fieldsAreWritable fields
  | _ => true

/-- All of the values can be written. -/
def areWritable : List Json → Bool
  | [] => true
  | v :: rest => v.isWritable && areWritable rest

/-- All of the values under keys can be written. -/
def fieldsAreWritable : List (String × Json) → Bool
  | [] => true
  | (_, v) :: rest => v.isWritable && fieldsAreWritable rest

end

/-- The text of a truth value. -/
def boolText (b : Bool) : String := if b then "True" else "False"

mutual

/-- A value inside a message: texts are quoted. -/
def literal : Json → String
  | null => "None"
  | bool b => boolText b
  | int n => String.ofList (Numeral.showInt n)
  | float x => x.text
  | str s => quoted s
  | arr items => "[" ++ literalItems items ++ "]"
  | obj fields => "\x7b" ++ literalFields fields ++ "\x7d"

/-- Values with a comma and a space between them. -/
def literalItems : List Json → String
  | [] => ""
  | [v] => v.literal
  | v :: rest => v.literal ++ ", " ++ literalItems rest

/-- Keys and values, a colon between them. -/
def literalFields : List (String × Json) → String
  | [] => ""
  | [(k, v)] => quoted k ++ ": " ++ v.literal
  | (k, v) :: rest => quoted k ++ ": " ++ v.literal ++ ", " ++ literalFields rest

end

/-- A value as a text: a string stands for itself. -/
def text : Json → String
  | str s => s
  | v => v.literal

end Json

end LanguageRelay
