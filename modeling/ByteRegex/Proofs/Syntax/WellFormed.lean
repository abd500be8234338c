import ByteRegex.Assembly.Emit

/-!
# Well-formed expressions

The parser numbers groups and counters, bounds quantifiers and measures bodies. What it guarantees
by that is a property of the expression alone, and the rest of the development needs no more.
-/

namespace ByteRegex

/-- The bounds are in order and fit into an operand. -/
structure Quantifier.Valid (quantifier : Quantifier) : Prop where
  least : quantifier.least ≤ Capacity.bound
  most : ∀ most ∈ quantifier.most, 1 ≤ most ∧ quantifier.least ≤ most ∧ most ≤ Capacity.bound

theorem Quantifier.needsCounter_of_counting {quantifier : Quantifier} (nullable : Bool)
    (counting : 2 ≤ quantifier.least ∨ (1 ≤ quantifier.least ∧ quantifier.most ≠ none)) :
    quantifier.needsCounter nullable = true := by
  unfold Quantifier.needsCounter
  split
  · omega
  · omega
  · simp_all
  · rfl

namespace Expr

/-- The groups inside an expression, in the order in which they open. -/
def captures : Expr → List Nat
  | empty | test _ | literal _ _ | assertion _ | backReference _ _ | repetition _ _ => []
  | sequence first second | alternative first second => first.captures ++ second.captures
  | capture group body => group :: body.captures
  | loop _ _ _ body | atomic body | look _ _ body => body.captures

/-- The counters of the loops inside an expression, in the order in which the loops end. -/
def counters : Expr → List Nat
  | empty | test _ | literal _ _ | assertion _ | backReference _ _ | repetition _ _ => []
  | sequence first second | alternative first second => first.counters ++ second.counters
  | capture _ body | atomic body | look _ _ body => body.counters
  | loop quantifier nullable counter body =>
      body.counters ++ if quantifier.needsCounter nullable then [counter] else []

/-- The groups that an expression refers back to. -/
def references : Expr → List Nat
  | empty | test _ | literal _ _ | assertion _ | repetition _ _ => []
  | backReference _ group => [group]
  | sequence first second | alternative first second => first.references ++ second.references
  | capture _ body | loop _ _ _ body | atomic body | look _ _ body => body.references

def WellFormed : Expr → Prop
  | empty | test _ | literal _ _ | assertion _ => True
  | backReference _ group => 1 ≤ group ∧ group < Capacity.slots
  | sequence first second | alternative first second => first.WellFormed ∧ second.WellFormed
  | capture group body =>
      1 ≤ group ∧ group < Capacity.slots ∧ group ∉ body.captures ∧ body.WellFormed
  | repetition quantifier _ => quantifier.Valid
  | loop quantifier nullable counter body =>
      quantifier.Valid ∧ nullable = body.nullable ∧
        (quantifier.needsCounter nullable = true →
          counter < Capacity.counters ∧ counter ∉ body.counters) ∧ body.WellFormed
  | atomic body => body.WellFormed
  | look direction width body =>
      (direction.isBehind = true → body.width.fixed? = some width ∧ width ≤ 32767) ∧
        body.WellFormed

end Expr

end ByteRegex
