/-!
How much a pattern, a program and a search may hold.
-/

namespace ByteRegex.Capacity

/-- Spans per match: the whole match and nine groups. -/
abbrev slots : Nat := 10

/-- Counter registers for loops that count or watch their progress. -/
abbrev counters : Nat := 9

/-- The largest bound of a counted repeat. -/
def bound : Nat := 32767

/-- The longest literal of one instruction. -/
def literal : Nat := 32767

/-- The deepest nesting of groups. -/
def nesting : Nat := 256

/-- The deepest nesting of calls in a search, whatever its limits say. -/
def depth : Nat := 2500

/-- The nesting of calls that a search is limited to unless told otherwise. -/
def defaultDepth : Nat := 2000

end ByteRegex.Capacity
