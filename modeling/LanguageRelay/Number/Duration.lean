import LanguageRelay.Number.Decimal
/-!
# Durations

Lengths of time, counted in billionths of a second. Settings give them in
thousandths, messages in seconds.
-/

namespace LanguageRelay

/-- A length of time. -/
structure Duration where
  nanos : Int
deriving DecidableEq, Repr

namespace Duration

/-- A whole count of thousandths of a second. -/
def ofMillis (n : Int) : Duration := ⟨n * 1000000⟩

/-- A finite count of thousandths of a second, to the nearest duration. -/
def ofDouble? : Double → Option Duration
  | .finite negative m e =>
    let (n, d) := Double.magnitude m e
    let count : Int := Double.roundDiv (n * 1000000) d
    some ⟨if negative then -count else count⟩
  | _ => none

/-- The duration in seconds. -/
def seconds (d : Duration) : Double := .ofRatio (d.nanos < 0) d.nanos.natAbs 1000000000

/-- The duration in seconds, as messages give it. -/
def brief (d : Duration) : String := d.seconds.brief

end Duration

end LanguageRelay
