import ByteRegex.Assertion
import ByteRegex.ByteTest
import ByteRegex.Look
import ByteRegex.Quantifier
import ByteRegex.Width

/-!
Expressions: patterns as trees. Flags are resolved, groups and counters have their numbers, and
groups that only enclose are gone.
-/

namespace ByteRegex

inductive Expr where
  | empty
  | test (test : ByteTest)
  /-- Several bytes in a row. -/
  | literal (caseless : Bool) (bytes : List UInt8)
  | assertion (assertion : Assertion)
  | backReference (caseless : Bool) (group : Nat)
  | sequence (first second : Expr)
  /-- The second expression is tried only where the first fails. -/
  | alternative (first second : Expr)
  | capture (group : Nat) (body : Expr)
  /-- A test of one byte, repeated. -/
  | repetition (quantifier : Quantifier) (test : ByteTest)
  /-- A repeated expression. A nullable body can match the empty text. A loop that neither counts
  nor has a nullable body leaves its counter alone. -/
  | loop (quantifier : Quantifier) (nullable : Bool) (counter : Nat) (body : Expr)
  /-- Only the first match of the body is ever tried. -/
  | atomic (body : Expr)
  /-- A lookbehind starts its body `width` bytes before the position. -/
  | look (look : Look) (width : Nat) (body : Expr)

namespace Expr

instance : Inhabited Expr := ⟨empty⟩

/-- The width of an expression that follows a part of width `before`, both taken together. -/
def widthAfter (before : Width) : Expr → Width
  | empty => before
  | test _ => before.followedBy (.exactly 1)
  | literal _ bytes => before.followedBy (.exactly bytes.length)
  | assertion _ => before
  | backReference _ _ => before.followedBy .unknown
  | sequence first second => second.widthAfter (first.widthAfter before)
  | alternative first second =>
      before.followedBy
        ((first.widthAfter (.exactly 0)).either (second.widthAfter (.exactly 0)))
  | capture _ body => body.widthAfter before
  | repetition quantifier _ =>
      before.followedBy ((Width.exactly 1).repeated quantifier.least quantifier.most)
  | loop quantifier _ _ body =>
      before.followedBy
        ((body.widthAfter (.exactly 0)).repeated quantifier.least quantifier.most)
  | atomic body => body.widthAfter before
  | look _ _ _ => before

def width (expr : Expr) : Width := expr.widthAfter (.exactly 0)

/-- Whether the width allows the empty text. -/
def nullable (expr : Expr) : Bool := expr.width.least = 0

/-- The pieces one after another. They are given last piece first. -/
def sequenceOfReversed (pieces : List Expr) : Expr :=
  pieces.foldl (fun later piece => sequence piece later) empty

/-- The branches of an alternation, the first one tried first. All but the last are given, latest
first. -/
def alternationOfReversed (branches : List Expr) (last : Expr) : Expr :=
  branches.foldl (fun later branch => alternative branch later) last

end Expr

end ByteRegex
