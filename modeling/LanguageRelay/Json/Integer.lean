import LanguageRelay.Failure
/-!
# Integers from JSON values

`Json.toInteger` reads a value as an integer as freely as it can: truth values
are one and zero, doubles lose their fraction, texts hold a numeral.
-/

namespace LanguageRelay

namespace Json

/-- The integer a value stands for. -/
def toInteger : Json → Except ValueFault Int
  | null => .error .wrongType
  | bool b => .ok (if b then 1 else 0)
  | int n => .ok n
  | float x =>
    match x with
    | .nan => .error .badValue
    | .infinite _ => .error .infinite
    | x => .ok (x.truncate?.getD 0)
  | str s =>
    match Numeral.readInt? s.toList with
    | some n => .ok n
    | none => .error .badValue
  | arr _ => .error .wrongType
  | obj _ => .error .wrongType

/-- The field an object must have. -/
def field (v : Json) (key : String) : Except ValueFault Json :=
  match v with
  | obj fields =>
    match Table.get? key fields with
    | some x => .ok x
    | none => .error .missingKey
  | _ => .error .wrongType

/-- The integer a value is: an integer or a truth value. -/
def exactInteger? : Json → Option Int
  | bool b => some (if b then 1 else 0)
  | int n => some n
  | _ => none

end Json

end LanguageRelay
