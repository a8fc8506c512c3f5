import LanguageRelay.Text.Numeral
/-!
# Dates and times

Dates, times of day, and both together, with an offset from universal time if
one is given. Each has a standard text and a literal form, in which fields
that are zero at its end are left out.
-/

namespace LanguageRelay

/-- A number with zeros in front up to a width. -/
def padded (width n : Nat) : String :=
  let ds := Numeral.digits n
  String.ofList (List.replicate (width - ds.length) '0' ++ ds)

/-- A number. -/
def plain (n : Nat) : String := String.ofList (Numeral.digits n)

/-- A date. -/
structure Date where
  year : Nat
  month : Nat
  day : Nat
deriving DecidableEq, Repr

namespace Date

/-- A year with a day more. -/
def isLeap (year : Nat) : Bool := year % 4 == 0 && (year % 100 != 0 || year % 400 == 0)

/-- The number of days of a month. -/
def daysIn (year month : Nat) : Nat :=
  if month = 2 then (if isLeap year then 29 else 28)
  else if month = 4 ∨ month = 6 ∨ month = 9 ∨ month = 11 then 30
  else 31

/-- The date is in the calendar. -/
def isValid (d : Date) : Bool := 1 ≤ d.year && d.day ≤ daysIn d.year d.month

/-- The standard text: year, month and day. -/
def text (d : Date) : String :=
  padded 4 d.year ++ "-" ++ padded 2 d.month ++ "-" ++ padded 2 d.day

/-- The numbers of a date. -/
def numbers (d : Date) : List String := [plain d.year, plain d.month, plain d.day]

/-- The literal form. -/
def literal (d : Date) : String := "datetime.date(" ++ ", ".intercalate d.numbers ++ ")"

end Date

/-- A time of day. -/
structure TimeOfDay where
  hour : Nat
  minute : Nat
  second : Nat
  micro : Nat
deriving DecidableEq, Repr

namespace TimeOfDay

/-- The standard text: hour, minute and second, and the fraction if there is
one. -/
def text (t : TimeOfDay) : String :=
  padded 2 t.hour ++ ":" ++ padded 2 t.minute ++ ":" ++ padded 2 t.second
    ++ (if t.micro = 0 then "" else "." ++ padded 6 t.micro)

/-- The numbers of a time, less zeros after the minute. -/
def numbers (t : TimeOfDay) : List String :=
  [plain t.hour, plain t.minute]
    ++ (if t.micro ≠ 0 then [plain t.second, plain t.micro]
      else if t.second ≠ 0 then [plain t.second] else [])

/-- The literal form. -/
def literal (t : TimeOfDay) : String := "datetime.time(" ++ ", ".intercalate t.numbers ++ ")"

end TimeOfDay

/-- How far local time is ahead of universal time, in minutes. -/
structure UtcOffset where
  minutes : Int
deriving DecidableEq, Repr

namespace UtcOffset

/-- The standard text: sign, hours and minutes. -/
def text (o : UtcOffset) : String :=
  (if o.minutes < 0 then "-" else "+") ++ padded 2 (o.minutes.natAbs / 60) ++ ":"
    ++ padded 2 (o.minutes.natAbs % 60)

/-- The literal form: a negative offset is a day back and seconds ahead. -/
def literal (o : UtcOffset) : String :=
  if o.minutes = 0 then "datetime.timezone.utc"
  else
    let seconds := o.minutes * 60
    let span := if seconds < 0 then "days=-1, seconds=" ++ plain (86400 + seconds).toNat
      else "seconds=" ++ plain seconds.toNat
    "datetime.timezone(datetime.timedelta(" ++ span ++ "))"

end UtcOffset

/-- A date with a time of day, local if no offset is given. -/
structure DateTime where
  date : Date
  time : TimeOfDay
  offset : Option UtcOffset
deriving DecidableEq, Repr

namespace DateTime

/-- The standard text, with a separator between date and time. -/
def textWith (separator : String) (d : DateTime) : String :=
  d.date.text ++ separator ++ d.time.text ++ (d.offset.map UtcOffset.text).getD ""

/-- The offset in the literal form. -/
def offsetField (d : DateTime) : List String :=
  match d.offset with
  | some o => ["tzinfo=" ++ o.literal]
  | none => []

/-- The literal form. -/
def literal (d : DateTime) : String :=
  "datetime.datetime(" ++ ", ".intercalate (d.date.numbers ++ d.time.numbers ++ d.offsetField)
    ++ ")"

end DateTime

end LanguageRelay
