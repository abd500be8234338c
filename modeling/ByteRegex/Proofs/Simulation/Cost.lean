import ByteRegex.Proofs.Semantics.Results

/-!
# Costs

Fuel is used up along one way through the code. What an expression adds to it depends on the bytes
that are left: so much for each of them, and so much however few there are. A body that runs as a
call of its own pays nothing to what follows, but has to be paid for in full wherever it starts.
-/

namespace ByteRegex

/-- How many rounds a loop that counts can make, with room for entering and leaving. -/
def Quantifier.rounds (quantifier : Quantifier) : Nat :=
  if quantifier.needsCounter false then quantifier.roundsLeft 0 false + 2 else 1

namespace Expr

/-- Instructions on the way through an expression, not counting iterations that consume a byte. -/
def overhead : Expr → Nat
  | empty => 0
  | test _ | assertion _ | backReference _ _ | repetition _ _ | atomic _ | look _ _ _ => 1
  | literal _ bytes => bytes.length
  | sequence first second => first.overhead + second.overhead
  | alternative first second => first.overhead + second.overhead + 2
  | capture _ body => body.overhead + 2
  | loop quantifier _ _ body => quantifier.roundsLeft 0 false * (body.overhead + 4) + 4

/-- Instructions for each byte that iterations may consume. -/
def slope : Expr → Nat
  | empty | test _ | literal _ _ | assertion _ | backReference _ _ | repetition _ _ | atomic _
  | look _ _ _ => 0
  | sequence first second | alternative first second => first.slope + second.slope
  | capture _ body => body.slope
  | loop _ _ _ body => body.slope + body.overhead + 4

/-- Instructions that calls inside an expression take, in a subject of this size. -/
def reserve (size : Nat) : Expr → Nat
  | empty | test _ | literal _ _ | assertion _ | backReference _ _ | repetition _ _ => 0
  | sequence first second | alternative first second => first.reserve size + second.reserve size
  | capture _ body | loop _ _ _ body => body.reserve size
  | atomic body | look _ _ body => body.slope * size + body.reserve size + body.overhead + 1

/-- How many rounds the counted loops of an expression can make, all taken together. -/
def rounds : Expr → Nat
  | empty | test _ | literal _ _ | assertion _ | backReference _ _ | repetition _ _ => 1
  | sequence first second | alternative first second => first.rounds * second.rounds
  | capture _ body | atomic body | look _ _ body => body.rounds
  | loop quantifier _ _ body => quantifier.rounds * body.rounds

end Expr

end ByteRegex
