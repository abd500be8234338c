/-!
How often a part of a pattern is repeated, and in which order the numbers of repeats are tried.
-/

namespace ByteRegex

inductive Greed where
  /-- As often as possible, then less often. -/
  | greedy
  /-- As seldom as possible, then more often. -/
  | lazy
  /-- As often as possible and no other way. -/
  | possessive
deriving DecidableEq, Repr

structure Quantifier where
  least : Nat
  /-- No number stands for any number. -/
  most : Option Nat
  greed : Greed
deriving DecidableEq, Repr

namespace Quantifier

/-- Exactly one repeat, which needs no code of its own. -/
def isOnce (quantifier : Quantifier) : Bool := quantifier.least = 1 && quantifier.most = some 1

end Quantifier

end ByteRegex
