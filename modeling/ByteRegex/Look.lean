/-!
Lookarounds: where they look and whether their body has to match there.
-/

namespace ByteRegex

inductive Look where
  | ahead
  | notAhead
  | behind
  | notBehind
deriving DecidableEq, Repr

namespace Look

def isPositive : Look → Bool
  | ahead | behind => true
  | notAhead | notBehind => false

def isBehind : Look → Bool
  | behind | notBehind => true
  | ahead | notAhead => false

end Look

end ByteRegex
