/-!
# Character ranges

A class of characters is given by the closed ranges of code points it holds.
-/

namespace LanguageRelay

/-- The code point lies in one of the ranges. -/
def inRanges (ranges : List (Nat × Nat)) (c : Char) : Bool :=
  ranges.any fun r => r.1 ≤ c.toNat && c.toNat ≤ r.2

end LanguageRelay
