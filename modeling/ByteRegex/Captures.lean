import ByteRegex.Capacity

/-!
The result of a match: the span of the whole match and of each group that took part.
-/

namespace ByteRegex

/-- The bytes from `start` up to and not including `stop`. -/
structure Span where
  start : Nat
  stop : Nat
deriving DecidableEq, Repr

structure Captures where
  slots : Vector (Option Span) Capacity.slots
deriving DecidableEq, Repr

namespace Captures

def empty : Captures := ⟨Vector.replicate _ none⟩

instance : Inhabited Captures := ⟨empty⟩

/-- The span of a group; group zero is the whole match. -/
def get? (captures : Captures) (index : Nat) : Option Span := captures.slots[index]?.join

def toList (captures : Captures) : List (Option Span) := captures.slots.toList

/-- The number of slots up to and including the last one that is set. -/
def length (captures : Captures) : Nat :=
  (captures.toList.reverse.dropWhile Option.isNone).length

/-- Whether no match is recorded. -/
def isEmpty (captures : Captures) : Bool := (captures.get? 0).isNone

/-- The bytes of a group in the subject that was searched. -/
def slice? (captures : Captures) (index : Nat) (subject : Array UInt8) : Option (Array UInt8) :=
  (captures.get? index).bind fun span =>
    if span.start ≤ span.stop && span.stop ≤ subject.size then
      some (subject.extract span.start span.stop)
    else none

end Captures

end ByteRegex
