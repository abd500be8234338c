/-!
Sets of code points, kept as the ascending list of the points where membership changes. A code
point is a member if and only if an odd number of boundaries is at or below it.
-/

namespace ByteRegex.Unicode

structure CodePointSet where
  boundaries : Array Nat

namespace CodePointSet

/-- Halves `low … high`, where every boundary before `low` is at or below the code point and none
from `high` on is. -/
def countFrom (boundaries : Array Nat) (codePoint low high : Nat) : Nat :=
  if low < high then
    let middle := (low + high) / 2
    if boundaries.getD middle 0 ≤ codePoint then countFrom boundaries codePoint (middle + 1) high
    else countFrom boundaries codePoint low middle
  else low
termination_by high - low

/-- The number of boundaries at or below a code point. -/
def countAtMost (boundaries : Array Nat) (codePoint : Nat) : Nat :=
  countFrom boundaries codePoint 0 boundaries.size

def contains (set : CodePointSet) (char : Char) : Bool :=
  countAtMost set.boundaries char.toNat % 2 = 1

end CodePointSet

end ByteRegex.Unicode
