/-!
# Ranges of code points

Sets of characters are given as tables of ranges.
-/

namespace ActionFlow.Text

/-- Whether a number lies in one of some ascending ranges, both ends included. -/
def inRanges (n : Nat) : List (Nat × Nat) → Bool
  | [] => false
  | (low, high) :: rest =>
    if n < low then false else if n ≤ high then true else inRanges n rest

end ActionFlow.Text
