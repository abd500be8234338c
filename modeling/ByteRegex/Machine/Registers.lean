import ByteRegex.Captures

/-!
What a match attempt remembers besides its position.
-/

namespace ByteRegex

structure Counter where
  count : Nat
  /-- Where the latest iteration started. -/
  mark : Nat
deriving DecidableEq, Repr

structure Registers where
  /-- Where each group that is open was opened. -/
  openings : Vector Nat Capacity.slots
  /-- The groups that have been closed. -/
  spans : Vector (Option Span) Capacity.slots
  counters : Vector Counter Capacity.counters
deriving DecidableEq

namespace Registers

def initial : Registers where
  openings := Vector.replicate _ 0
  spans := Vector.replicate _ none
  counters := Vector.replicate _ ⟨0, 0⟩

def openGroup (registers : Registers) (group : Fin Capacity.slots) (position : Nat) : Registers :=
  { registers with openings := registers.openings.set group position }

def closeGroup (registers : Registers) (group : Fin Capacity.slots) (position : Nat) : Registers :=
  { registers with
    spans := registers.spans.set group (some ⟨registers.openings.get group, position⟩) }

def resetCounter (registers : Registers) (counter : Fin Capacity.counters) (position : Nat) :
    Registers :=
  { registers with counters := registers.counters.set counter ⟨0, position⟩ }

/-- Begins an iteration at a position. -/
def increment (registers : Registers) (counter : Fin Capacity.counters) (position : Nat) :
    Registers :=
  { registers with
    counters :=
      registers.counters.set counter ⟨(registers.counters.get counter).count + 1, position⟩ }

end Registers

end ByteRegex
